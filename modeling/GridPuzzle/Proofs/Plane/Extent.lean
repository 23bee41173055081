import Mathlib.Order.Bounds.Basic
import GridPuzzle.Proofs.Plane.Walls

/-!
How far boxes reach. Where walls enclose boxes, a point with a wall on its left and above it opens a box, and
the next walls in its row and below it in its column are those behind the box. So all boxes are squares exactly
if from all such points it is as far to the one wall as to the other.
-/
namespace GridPuzzle.Plane

/-- The first number behind the start at which something ends. -/
def FirstAfter (ends : Int → Prop) (start : Int) : Int → Prop := IsLeast {number | start < number ∧ ends number}

variable {ends : Int → Prop} {start first : Int}

theorem firstAfter_iff : FirstAfter ends start first ↔
    (start < first ∧ ends first) ∧ ∀ number, start < number → ends number → first ≤ number :=
  and_congr_right fun _ => ⟨fun least _ later ended => least ⟨later, ended⟩, fun least _ both => least _ both.1 both.2⟩

/-- It is enough to look at some of the ends if there is one of them before each. -/
theorem isLeast_iff_firstAfter {numbers : Set Int} (within : ∀ number ∈ numbers, start < number ∧ ends number)
    (before : ∀ number, start < number → ends number → ∃ earlier ∈ numbers, earlier ≤ number) :
    IsLeast numbers first ↔ FirstAfter ends start first := by
  rw [firstAfter_iff]
  constructor
  · intro least
    refine ⟨within first least.1, fun number later ended => ?_⟩
    obtain ⟨earlier, member, atMost⟩ := before number later ended
    exact (least.2 member).trans atMost
  · intro least
    obtain ⟨⟨later, ended⟩, lowest⟩ := least
    obtain ⟨earlier, member, atMost⟩ := before first later ended
    have same : first = earlier :=
      (lowest earlier (within earlier member).1 (within earlier member).2).antisymm atMost
    exact ⟨same ▸ member, fun number member => lowest number (within number member).1 (within number member).2⟩

/-- Behind a point of a set, the set ends where two points beside each other are not both in it. -/
theorem firstAfter_pair {inside : Int → Prop} (here : inside start) :
    FirstAfter (fun number => ¬ (inside (number - 1) ∧ inside number)) start first ↔
      FirstAfter (fun number => ¬ inside number) start first := by
  have before {number : Int} (later : start < number) (out : ¬ inside (number - 1)) : start < number - 1 := by
    by_contra near
    exact out ((show number - 1 = start by omega) ▸ here)
  simp only [firstAfter_iff]
  constructor
  · intro least
    obtain ⟨⟨later, ended⟩, lowest⟩ := least
    refine ⟨⟨later, fun inFirst => ?_⟩, fun number later out => lowest number later fun both => out both.2⟩
    have out : ¬ inside (first - 1) := fun inBefore => ended ⟨inBefore, inFirst⟩
    have lower := lowest (first - 1) (before later out) fun both => out both.2
    omega
  · intro least
    obtain ⟨⟨later, out⟩, lowest⟩ := least
    refine ⟨⟨later, fun both => out both.2⟩, fun number later ended => ?_⟩
    by_cases inNumber : inside number
    · have out : ¬ inside (number - 1) := fun inBefore => ended ⟨inBefore, inNumber⟩
      have lower := lowest (number - 1) (before later out) out
      omega
    · exact lowest number later inNumber

structure Box where
  top : Int
  bottom : Int
  left : Int
  right : Int

namespace Box

def Holds (box : Box) (r c : Int) : Prop := (box.top ≤ r ∧ r ≤ box.bottom) ∧ box.left ≤ c ∧ c ≤ box.right

def swap (box : Box) : Box := ⟨box.left, box.right, box.top, box.bottom⟩

theorem holds_swap {box : Box} {r c : Int} : box.swap.Holds r c ↔ box.Holds c r := and_comm

end Box

namespace Sheet

variable {sheet : Sheet} {box : Box} {r c m n : Int}

/-- In all rows of the box, walls stand on its left and behind its right side, and nowhere in between. -/
structure Bars (sheet : Sheet) (box : Box) : Prop where
  wide : box.left ≤ box.right
  first : ∀ {r}, box.top ≤ r → r ≤ box.bottom → sheet.left r box.left
  last : ∀ {r}, box.top ≤ r → r ≤ box.bottom → sheet.left r (box.right + 1)
  free : ∀ {r c}, box.Holds r c → box.left < c → ¬ sheet.left r c

structure Encloses (sheet : Sheet) (box : Box) : Prop where
  grid : ∀ {r c}, box.Holds r c → sheet.grid r c
  across : sheet.Bars box
  down : sheet.swap.Bars box.swap

theorem Encloses.swap (encloses : sheet.Encloses box) : sheet.swap.Encloses box.swap :=
  ⟨fun inside => encloses.grid (Box.holds_swap.mp inside), encloses.down, encloses.across⟩

theorem Bars.firstAfter (bars : sheet.Bars box) (inRow : box.top ≤ r ∧ r ≤ box.bottom) :
    FirstAfter (sheet.left r) box.left n ↔ n = box.right + 1 := by
  have wide := bars.wide
  have isFirst : FirstAfter (sheet.left r) box.left (box.right + 1) := by
    refine firstAfter_iff.mpr ⟨⟨by omega, bars.last inRow.1 inRow.2⟩, fun c later walled => ?_⟩
    by_contra near
    exact bars.free ⟨inRow, by omega, by omega⟩ later walled
  exact ⟨fun least => least.unique isFirst, fun same => same ▸ isFirst⟩

theorem Bars.left_iff (bars : sheet.Bars box) (inside : box.Holds r c) : sheet.left r c ↔ c = box.left := by
  constructor
  · intro walled
    have atLeast := inside.2.1
    by_contra apart
    exact bars.free inside (by omega) walled
  · intro same
    subst same
    exact bars.first inside.1.1 inside.1.2

def Opening (sheet : Sheet) (r c : Int) : Prop := sheet.grid r c ∧ sheet.left r c ∧ sheet.top r c

/-- From some point that opens a box, it is not as far to the next wall below as to the next one beside. -/
def Uneven (sheet : Sheet) : Prop :=
  ∃ r c m n, sheet.Opening r c ∧ FirstAfter (fun row => sheet.top row c) r m ∧ FirstAfter (sheet.left r) c n ∧
    m - r ≠ n - c

theorem Uneven.of_swap (uneven : sheet.swap.Uneven) : sheet.Uneven := by
  obtain ⟨c, r, n, m, ⟨here, above, before⟩, across, down, unequal⟩ := uneven
  exact ⟨r, c, m, n, ⟨here, before, above⟩, down, across, unequal.symm⟩

theorem Encloses.opening_iff (encloses : sheet.Encloses box) (inside : box.Holds r c) :
    sheet.Opening r c ↔ r = box.top ∧ c = box.left := by
  have before := encloses.across.left_iff inside
  have above : sheet.top r c ↔ r = box.top := encloses.down.left_iff (Box.holds_swap.mpr inside)
  rw [Opening, and_iff_right (encloses.grid inside), before, above]
  exact and_comm

/-- Some of the boxes that walls enclose hold each point of the grid. -/
structure Tiled (sheet : Sheet) (tiles : Box → Prop) : Prop where
  encloses : ∀ {box}, tiles box → sheet.Encloses box
  covers : ∀ {r c}, sheet.grid r c → ∃ box, tiles box ∧ box.Holds r c

namespace Tiled

variable {tiles : Box → Prop} (tiled : sheet.Tiled tiles)
include tiled

theorem swap : sheet.swap.Tiled fun box => tiles box.swap := by
  refine ⟨fun tile => (tiled.encloses tile).swap, fun here => ?_⟩
  obtain ⟨box, tile, inside⟩ := tiled.covers here
  exact ⟨box.swap, tile, Box.holds_swap.mpr inside⟩

theorem exists_of_opening (opening : sheet.Opening r c) :
    ∃ box, tiles box ∧ box.top = r ∧ box.left = c := by
  obtain ⟨box, tile, inside⟩ := tiled.covers opening.1
  obtain ⟨rows, cols⟩ := ((tiled.encloses tile).opening_iff inside).mp opening
  exact ⟨box, tile, rows.symm, cols.symm⟩

theorem uneven_iff : sheet.Uneven ↔ ∃ box, tiles box ∧ box.bottom - box.top ≠ box.right - box.left := by
  constructor
  · intro uneven
    obtain ⟨r, c, m, n, opening, down, across, unequal⟩ := uneven
    obtain ⟨box, tile, rfl, rfl⟩ := tiled.exists_of_opening opening
    have encloses := tiled.encloses tile
    have tall := encloses.down.wide
    have wide := encloses.across.wide
    have below : m = box.bottom + 1 := (encloses.down.firstAfter ⟨Int.le_refl _, wide⟩).mp down
    have beside : n = box.right + 1 := (encloses.across.firstAfter ⟨Int.le_refl _, tall⟩).mp across
    exact ⟨box, tile, by omega⟩
  · intro uneven
    obtain ⟨box, tile, unequal⟩ := uneven
    have encloses := tiled.encloses tile
    have tall := encloses.down.wide
    have wide := encloses.across.wide
    have inside : box.Holds box.top box.left := ⟨⟨Int.le_refl _, tall⟩, Int.le_refl _, wide⟩
    refine ⟨box.top, box.left, box.bottom + 1, box.right + 1, (encloses.opening_iff inside).mpr ⟨rfl, rfl⟩,
      (encloses.down.firstAfter ⟨Int.le_refl _, wide⟩).mpr rfl,
      (encloses.across.firstAfter ⟨Int.le_refl _, tall⟩).mpr rfl, by omega⟩

/-- A box that goes on below its first point and not beside it is no square. -/
theorem uneven_of_step (opening : sheet.Opening r c) (below : ¬ sheet.top (r + 1) c)
    (beside : sheet.left r (c + 1)) : sheet.Uneven := by
  obtain ⟨box, tile, rfl, rfl⟩ := tiled.exists_of_opening opening
  have encloses := tiled.encloses tile
  have tall : box.top ≤ box.bottom := encloses.down.wide
  have wide := encloses.across.wide
  have narrow : box.left + 1 = box.right + 1 := by
    rw [← encloses.across.firstAfter ⟨Int.le_refl _, tall⟩, firstAfter_iff]
    exact ⟨⟨by omega, beside⟩, fun _ later _ => by omega⟩
  have taller : box.top ≠ box.bottom := by
    intro same
    exact below (same ▸ encloses.down.last (Int.le_refl _) wide)
  exact tiled.uneven_iff.mpr ⟨box, tile, by omega⟩

end Tiled

/-- Walls wherever two points beside each other are not both in the set. -/
def ofShaded (shaded : Int → Int → Prop) : Sheet :=
  ⟨shaded, fun r c => ¬ (shaded r (c - 1) ∧ shaded r c), fun r c => ¬ (shaded (r - 1) c ∧ shaded r c)⟩

variable {shaded : Int → Int → Prop}

theorem opening_ofShaded : (ofShaded shaded).Opening r c ↔
    shaded r c ∧ ¬ shaded r (c - 1) ∧ ¬ shaded (r - 1) c := by
  refine and_congr_right fun here => ?_
  have here : shaded r c := here
  simp only [ofShaded, and_iff_left here]

theorem firstAfter_left (here : shaded r c) : FirstAfter ((ofShaded shaded).left r) c n ↔
    FirstAfter (fun col => ¬ shaded r col) c n :=
  @firstAfter_pair c n (shaded r) here

theorem firstAfter_top (here : shaded r c) : FirstAfter (fun row => (ofShaded shaded).top row c) r m ↔
    FirstAfter (fun row => ¬ shaded row c) r m :=
  @firstAfter_pair r m (shaded · c) here

theorem opens_ofShaded {r' c' : Int} : (ofShaded shaded).Opens r c r' c' ↔
    (shaded r c ∧ shaded r' c') ∧ (r - r').natAbs + (c - c').natAbs = 1 := by
  refine and_congr_right fun both => ⟨fun side => ?_, fun near => ?_⟩
  · rcases side with ⟨level, one, _⟩ | ⟨upright, one, _⟩ <;> omega
  · by_cases level : r = r'
    · subst level
      refine .inl ⟨rfl, by omega, not_not.mpr ?_⟩
      rcases (by omega : c' = c + 1 ∨ c = c' + 1) with rfl | rfl
      · rw [Int.max_eq_right (by omega), Int.add_sub_cancel]
        exact both
      · rw [Int.max_eq_left (by omega), Int.add_sub_cancel]
        exact both.symm
    · obtain rfl : c = c' := by omega
      refine .inr ⟨rfl, by omega, not_not.mpr ?_⟩
      rcases (by omega : r' = r + 1 ∨ r = r' + 1) with rfl | rfl
      · rw [Int.max_eq_right (by omega), Int.add_sub_cancel]
        exact both
      · rw [Int.max_eq_left (by omega), Int.add_sub_cancel]
        exact both.symm

/-- Walls stand wherever the grid ends. -/
structure Bordered (sheet : Sheet) : Prop where
  left : ∀ {r c}, ¬ (sheet.grid r (c - 1) ↔ sheet.grid r c) → sheet.left r c
  top : ∀ {r c}, ¬ (sheet.grid (r - 1) c ↔ sheet.grid r c) → sheet.top r c

theorem Bordered.swap (bordered : sheet.Bordered) : sheet.swap.Bordered := ⟨bordered.top, bordered.left⟩

theorem Fenced.bordered (fenced : sheet.Fenced) : sheet.Bordered := ⟨fenced.left, fenced.top⟩

theorem bordered_ofShaded (shaded : Int → Int → Prop) : (ofShaded shaded).Bordered :=
  ⟨fun apart both => apart (iff_of_true both.1 both.2), fun apart both => apart (iff_of_true both.1 both.2)⟩

/-- No way leads out of the box, and none is closed inside of it. -/
structure Closed (sheet : Sheet) (box : Box) : Prop where
  tall : box.top ≤ box.bottom
  wide : box.left ≤ box.right
  grid : ∀ {r c}, box.Holds r c → sheet.grid r c
  stays : ∀ {r c r' c'}, box.Holds r c → sheet.Opens r c r' c' → box.Holds r' c'
  opens : ∀ {r c r' c'}, box.Holds r c → box.Holds r' c' → (r - r').natAbs + (c - c').natAbs = 1 →
    sheet.Opens r c r' c'

theorem Closed.swap (closed : sheet.Closed box) : sheet.swap.Closed box.swap := by
  refine ⟨closed.wide, closed.tall, fun inside => closed.grid (Box.holds_swap.mp inside),
    fun inside opens => ?_, fun inside inside' near => ?_⟩
  · rw [opens_swap] at opens
    exact Box.holds_swap.mpr (closed.stays (Box.holds_swap.mp inside) opens)
  · rw [opens_swap]
    exact closed.opens (Box.holds_swap.mp inside) (Box.holds_swap.mp inside') ((Nat.add_comm _ _).trans near)

theorem Closed.bars (closed : sheet.Closed box) (bordered : sheet.Bordered) : sheet.Bars box := by
  have wide := closed.wide
  -- a side without a wall opens a way between the points before and behind it
  have opens {r c : Int} (free : ¬ sheet.left r c) (either : sheet.grid r (c - 1) ∨ sheet.grid r c) :
      sheet.Opens r (c - 1) r c := by
    have same := not_not.mp (mt bordered.left free)
    have both : sheet.grid r (c - 1) ∧ sheet.grid r c := by tauto
    exact ⟨both, .inl ⟨rfl, by omega, by rwa [show max (c - 1) c = c by omega]⟩⟩
  refine ⟨wide, fun {r} low high => ?_, fun {r} low high => ?_, fun {r c} inside later => ?_⟩
  · by_contra free
    have inside : box.Holds r box.left := ⟨⟨low, high⟩, Int.le_refl _, wide⟩
    have out := closed.stays inside (opens free (.inr (closed.grid inside))).symm
    have atLeast := out.2.1
    omega
  · by_contra free
    have inside : box.Holds r (box.right + 1 - 1) := ⟨⟨low, high⟩, by omega, by omega⟩
    have out := closed.stays inside (opens free (.inl (closed.grid inside)))
    have atMost := out.2.2
    omega
  · have before : box.Holds r (c - 1) := ⟨inside.1, by omega, by have := inside.2.2; omega⟩
    have free := (closed.opens before inside (by omega)).no_left
    rwa [show max (c - 1) c = c by omega] at free

theorem Closed.encloses (closed : sheet.Closed box) (bordered : sheet.Bordered) : sheet.Encloses box :=
  ⟨closed.grid, closed.bars bordered, closed.swap.bars bordered.swap⟩

end Sheet

end GridPuzzle.Plane
