import GridPuzzle.Proofs.Board.Rays

/-!
Tests of neighbors. Whether two cells are neighbors is told by the distances of their rows and columns, or by a search
through the sides of one of them. A test is refused if a number on the way is no coordinate, which the distances show
beforehand, and tests that are not refused agree.
-/
namespace GridPuzzle

/-- The distances by which cells are told to be neighbors are coordinates. -/
def Adjacency.Measured (kind : Adjacency) (a b : Cell) : Prop :=
  match kind with
  | .corner => (a.row.val - b.row.val).natAbs ≤ 2147483647 ∧
      ((a.row.val - b.row.val).natAbs = 1 → (a.col.val - b.col.val).natAbs ≤ 2147483647)
  | .side | .around | .walled | .path | .directedPath =>
      (a.row.val - b.row.val).natAbs + (a.col.val - b.col.val).natAbs ≤ 2147483647

theorem Adjacency.exists_touches_iff {kind : Adjacency} {a b : Cell} :
    (∃ answer, kind.touches a b = .ok answer) ↔ kind.Measured a b := by
  have side : (∃ answer, a.sharesSide b = .ok answer) →
      (a.row.val - b.row.val).natAbs + (a.col.val - b.col.val).natAbs ≤ 2147483647 :=
    fun ⟨_, shares⟩ => (Cell.sharesSide_eq_ok.mp shares).1
  cases kind with
  | corner =>
    refine ⟨fun ⟨_, shares⟩ => (Cell.sharesCorner_eq_ok.mp shares).1, fun measured => ?_⟩
    exact ⟨decide _, Cell.sharesCorner_eq_ok.mpr ⟨measured, decide_eq_true_iff⟩⟩
  | around =>
    refine ⟨fun ⟨_, touches⟩ => side ?_, exists_touches .around⟩
    obtain ⟨answer, shares, _⟩ := Outcome.bind_eq_ok.mp touches
    exact ⟨answer, shares⟩
  | side | walled | path | directedPath => exact ⟨side, exists_touches _⟩

theorem Adjacency.Measured.sum_le {kind : Adjacency} {a b : Cell} (measured : kind.Measured a b)
    (sides : kind ≠ .corner) : (a.row.val - b.row.val).natAbs + (a.col.val - b.col.val).natAbs ≤ 2147483647 := by
  cases kind with
  | corner => exact absurd rfl sides
  | side | around | walled | path | directedPath => exact measured

theorem Adjacency.measured_iff {kind : Adjacency} {a b : Cell} (sides : kind ≠ .corner) :
    kind.Measured a b ↔ (a.row.val - b.row.val).natAbs + (a.col.val - b.col.val).natAbs < 2147483648 := by
  refine ⟨fun measured => Nat.lt_succ_of_le (measured.sum_le sides), fun fits => ?_⟩
  cases kind with
  | corner => exact absurd rfl sides
  | side | around | walled | path | directedPath => exact Nat.le_of_lt_succ fits

theorem Adjacency.touches_overflows_iff {kind : Adjacency} {a b : Cell} :
    (∃ operation, kind.touches a b = .error (.overflow operation)) ↔ ¬ kind.Measured a b := by
  rw [(kind.touches_refusedOnly a b).overflows_iff, exists_touches_iff]

theorem Adjacency.touches_of_measured {kind : Adjacency} {a b : Cell} (measured : kind.Measured a b) :
    kind.touches a b = .ok (decide (kind.Near a b)) := by
  obtain ⟨answer, touches⟩ := exists_touches_iff.mpr measured
  rw [touches, Bool.eq_iff_iff.mpr ((near_of_touches touches).trans decide_eq_true_iff.symm)]

namespace Side

variable {source target : Cell} {side other : Side} {sides : List Side} {answer : Option Side}

theorem eq_of_neighbor (stepped : side.neighbor source = .ok target) (stepped' : other.neighbor source = .ok target) :
    side = other := by
  rw [Board.neighbor_eq_ok] at stepped stepped'
  cases side <;> cases other <;> first | rfl | (dsimp only at stepped stepped'; omega)

theorem opposite_neighbor (stepped : side.neighbor source = .ok target) :
    side.opposite.neighbor target = .ok source := by
  rw [Board.neighbor_eq_ok] at stepped ⊢
  cases side <;> simp only [opposite] at * <;> omega

theorem firstTowards_refusedOnly (source target : Cell) (sides : List Side) :
    Outcome.RefusedOnly Error.IsOverflow (firstTowards source target sides) := by
  induction sides with
  | nil => exact .of_ok _
  | cons side rest ih =>
    refine .bind (source.shift_refusedOnly side.offset) fun reached _ => ?_
    split
    · exact .of_ok _
    · exact ih

theorem isSome_firstTowards (found : firstTowards source target sides = .ok answer) :
    answer.isSome = true ↔ ∃ side ∈ sides, side.neighbor source = .ok target := by
  induction sides with
  | nil =>
    cases found
    simp
  | cons side rest ih =>
    obtain ⟨reached, stepped, next⟩ := Outcome.bind_eq_ok.mp found
    rw [List.exists_mem_cons_iff, stepped, Except.ok.injEq]
    by_cases here : reached = target
    · rw [if_pos here] at next
      cases next
      simp [here]
    · rw [if_neg here] at next
      rw [ih next, or_iff_right here]

theorem neighbor_of_firstTowards (found : firstTowards source target sides = .ok (some side)) :
    side.neighbor source = .ok target := by
  induction sides with
  | nil => cases found
  | cons first rest ih =>
    obtain ⟨reached, stepped, next⟩ := Outcome.bind_eq_ok.mp found
    by_cases here : reached = target
    · rw [if_pos here] at next
      cases next
      rw [stepped, here]
    · rw [if_neg here] at next
      exact ih next

/-- The search ends if there is a step through each side that it comes to. It comes to no side after one that leads to
the target. -/
theorem exists_firstTowards_iff : (∃ answer, firstTowards source target sides = .ok answer) ↔
    ∀ before side after, sides = before ++ side :: after → (∀ earlier ∈ before, earlier.neighbor source ≠ .ok target) →
      ∃ next, side.neighbor source = .ok next := by
  induction sides with
  | nil => exact iff_of_true ⟨none, rfl⟩ fun before _ _ split => absurd split (by simp)
  | cons first rest ih =>
    constructor
    · intro ended before side after split missed
      obtain ⟨answer, found⟩ := ended
      obtain ⟨reached, stepped, next⟩ := Outcome.bind_eq_ok.mp found
      rcases List.cons_eq_append_iff.mp split with ⟨rfl, same⟩ | ⟨others, rfl, behind⟩
      · obtain ⟨rfl, _⟩ := List.cons.inj same
        exact ⟨reached, stepped⟩
      · obtain ⟨off, missed⟩ := List.forall_mem_cons.mp missed
        have here : reached ≠ target := fun same => off (same ▸ stepped)
        rw [if_neg here] at next
        exact ih.mp ⟨answer, next⟩ others side after behind missed
    · intro steps
      obtain ⟨reached, stepped⟩ := steps [] first rest rfl (List.forall_mem_nil _)
      by_cases here : reached = target
      · exact ⟨some first, Outcome.bind_eq_ok.mpr ⟨reached, stepped, if_pos here⟩⟩
      · have off : first.neighbor source ≠ .ok target := by rwa [stepped, Ne, Except.ok.injEq]
        obtain ⟨answer, next⟩ := ih.mpr fun before side after split missed =>
          steps (first :: before) side after (congrArg (first :: ·) split) (List.forall_mem_cons.mpr ⟨off, missed⟩)
        exact ⟨answer, Outcome.bind_eq_ok.mpr ⟨reached, stepped, (if_neg here).trans next⟩⟩

theorem exists_firstTowards (around : ∀ side : Side, ∃ next, side.neighbor source = .ok next) (sides : List Side) :
    ∃ answer, firstTowards source target sides = .ok answer :=
  exists_firstTowards_iff.mpr fun _ side _ _ _ => around side

theorem near_of_between (found : between source target = .ok answer) :
    answer.isSome = true ↔ Adjacency.side.Near source target := by
  rw [isSome_firstTowards found]
  constructor
  · rintro ⟨side, _, stepped⟩
    exact Board.near_side_of_neighbor stepped
  · intro near
    obtain ⟨side, stepped⟩ := Board.exists_neighbor near
    exact ⟨side, side.mem_all, stepped⟩

theorem between_overflows_iff : (∃ operation, between source target = .error (.overflow operation)) ↔
    ∃ before side after, all = before ++ side :: after ∧
      (∀ earlier ∈ before, earlier.neighbor source ≠ .ok target) ∧ ¬ ∃ next, side.neighbor source = .ok next := by
  rw [between, (firstTowards_refusedOnly source target all).overflows_iff, exists_firstTowards_iff]
  simp only [not_forall, exists_prop]

/-- A search that is not refused finds the side that leads to the target, if there is one. -/
theorem between_eq_some_iff (found : between source target = .ok answer) :
    answer = some side ↔ side.neighbor source = .ok target := by
  constructor
  · rintro rfl
    exact neighbor_of_firstTowards found
  · intro stepped
    obtain ⟨first, rfl⟩ := Option.isSome_iff_exists.mp ((isSome_firstTowards found).mpr ⟨side, side.mem_all, stepped⟩)
    rw [eq_of_neighbor stepped (neighbor_of_firstTowards found)]

end Side

namespace Adjacency

/-- Two cells share a side, or are neighbors at all, as the distances of their rows and columns tell, and both tests
overflow if these come to more than a coordinate together. A search for the side they share overflows if it comes to a
side that no step leads through. If neither test overflows, it finds the side exactly if they share one, and that is
the only one that leads from one cell to the other, and the opposite leads back. -/
theorem tests_agree (a b : Cell) :
    ((∃ operation, a.sharesSide b = .error (.overflow operation)) ↔
        2147483648 ≤ (a.row.val - b.row.val).natAbs + (a.col.val - b.col.val).natAbs) ∧
      ((∃ operation, Adjacency.around.touches a b = .error (.overflow operation)) ↔
        2147483648 ≤ (a.row.val - b.row.val).natAbs + (a.col.val - b.col.val).natAbs) ∧
      ((a.row.val - b.row.val).natAbs + (a.col.val - b.col.val).natAbs < 2147483648 →
        a.sharesSide b = .ok (decide ((a.row.val - b.row.val).natAbs + (a.col.val - b.col.val).natAbs = 1)) ∧
        Adjacency.around.touches a b =
          .ok (decide (max (a.row.val - b.row.val).natAbs (a.col.val - b.col.val).natAbs = 1))) ∧
      ((∃ operation, Side.between a b = .error (.overflow operation)) ↔
        ∃ before side after, Side.all = before ++ side :: after ∧
          (∀ earlier ∈ before, earlier.neighbor a ≠ .ok b) ∧ ¬ ∃ next, side.neighbor a = .ok next) ∧
      ∀ shared found, a.sharesSide b = .ok shared → Side.between a b = .ok found →
        (found.isSome = true ↔ shared = true) ∧
          ∀ side, found = some side → (∀ other : Side, other.neighbor a = .ok b ↔ other = side) ∧
            ∀ back, Side.between b a = .ok back → back = some side.opposite := by
  have overflows {kind : Adjacency} (sides : kind ≠ .corner) :
      (∃ operation, kind.touches a b = .error (.overflow operation)) ↔
        2147483648 ≤ (a.row.val - b.row.val).natAbs + (a.col.val - b.col.val).natAbs := by
    rw [touches_overflows_iff, measured_iff sides, Nat.not_lt]
  have shares : Adjacency.side ≠ .corner := nofun
  have surrounds : Adjacency.around ≠ .corner := nofun
  refine ⟨overflows shares, overflows surrounds, fun fits => ⟨?_, ?_⟩, Side.between_overflows_iff, ?_⟩
  · exact touches_of_measured ((measured_iff shares).mpr fits)
  · rw [touches_of_measured ((measured_iff surrounds).mpr fits)]
    refine congrArg Except.ok (decide_eq_decide.mpr ?_)
    simp only [Near]
    omega
  · intro shared found decided searched
    refine ⟨(Side.near_of_between searched).trans (Cell.sharesSide_eq_ok.mp decided).2.symm, fun side isSide => ?_⟩
    have leads := (Side.between_eq_some_iff searched).mp isSide
    refine ⟨fun other => ⟨fun stepped => Side.eq_of_neighbor stepped leads, fun same => same ▸ leads⟩, ?_⟩
    intro back searchedBack
    exact (Side.between_eq_some_iff searchedBack).mpr (Side.opposite_neighbor leads)

/-- A cell with no cell to its right. -/
def rowEnd : Cell := ⟨.of 0, .greatest⟩

def beforeRowEnd : Cell := ⟨.of 0, ⟨2147483646, by decide⟩⟩

/-- At the end of a row a search that comes to the right side overflows. One that finds the cell before it on the left
ends there. -/
theorem tests_agree_border :
    (∃ operation, (Cell.of 0 (-1)).sharesSide rowEnd = .error (.overflow operation)) ∧
      Adjacency.around.touches (.of 0 0) rowEnd = .ok false ∧
      (∃ operation, Side.between rowEnd (.of 0 0) = .error (.overflow operation)) ∧
      Side.between rowEnd beforeRowEnd = .ok (some .left) ∧ Side.between beforeRowEnd rowEnd = .ok (some .right) ∧
      ∀ side : Side, side.neighbor rowEnd = .ok beforeRowEnd ↔ side = .left := by
  have blocked : ∃ before side after, Side.all = before ++ side :: after ∧
      (∀ earlier ∈ before, earlier.neighbor rowEnd ≠ .ok (.of 0 0)) ∧ ¬ ∃ next, side.neighbor rowEnd = .ok next := by
    refine ⟨[.left, .up], .right, [.down], rfl, ?_, mt Cell.exists_shift_iff.mp (by decide)⟩
    rw [List.forall_mem_cons, List.forall_mem_singleton, Ne, Ne, Board.neighbor_eq_ok, Board.neighbor_eq_ok]
    decide
  have found : Side.between rowEnd beforeRowEnd = .ok (some .left) := rfl
  obtain ⟨answer, searchedBack⟩ : ∃ answer, Side.between beforeRowEnd rowEnd = .ok answer := ⟨_, rfl⟩
  obtain ⟨only, back⟩ := ((tests_agree rowEnd beforeRowEnd).2.2.2.2 true _ rfl found).2 .left rfl
  exact ⟨(tests_agree _ _).1.mpr (by decide), ((tests_agree (.of 0 0) rowEnd).2.2.1 (by decide)).2,
    (tests_agree _ _).2.2.2.1.mpr blocked, found, back answer searchedBack ▸ searchedBack, only⟩

end Adjacency

end GridPuzzle
