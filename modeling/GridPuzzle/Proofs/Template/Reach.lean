import GridPuzzle.Proofs.Adjacency
import GridPuzzle.Proofs.Polyomino.Canonical
import GridPuzzle.Proofs.Rules.Bounds
import GridPuzzle.Proofs.Template.Piece

/-!
Which cells can be registered. Building the rules of a shape is refused only if a coordinate does not fit, and from how
the cells lie to each other it can be told whether that happens.
-/
namespace GridPuzzle

namespace Template

variable {kind : Adjacency} {shape : Polyomino}

theorem touchingPairs_refusedOnly (kind : Adjacency) (pairs : List (Cell × Cell)) :
    Outcome.RefusedOnly Error.IsOverflow (touchingPairs kind pairs) := by
  induction pairs with
  | nil => exact .of_ok _
  | cons pair rest ih =>
    exact .bind (kind.touches_refusedOnly pair.1 pair.2) fun _ _ => .bind ih fun _ _ => .of_ok _

theorem stepsOut_refusedOnly (kind : Adjacency) (shape : Polyomino) (steps : List (Cell × Cell)) :
    Outcome.RefusedOnly Error.IsOverflow (stepsOut kind shape steps) := by
  induction steps with
  | nil => exact .of_ok _
  | cons step rest ih =>
    refine .bind (step.1.shift_refusedOnly step.2) fun next _ => ?_
    exact .bind (kind.touches_refusedOnly step.1 next) fun _ _ => .bind ih fun _ _ => .of_ok _

theorem wayBack_refusedOnly (offset : Cell) : Outcome.RefusedOnly Error.IsOverflow (wayBack offset) :=
  .bind (Coord.checked_refusedOnly _ _) fun _ _ => .bind (Coord.checked_refusedOnly _ _) fun _ _ => .of_ok _

theorem touches_of_touchingPairs {pairs linked : List (Cell × Cell)} (found : touchingPairs kind pairs = .ok linked) :
    ∀ pair ∈ pairs, ∃ answer, kind.touches pair.1 pair.2 = .ok answer := by
  induction pairs generalizing linked with
  | nil => exact fun _ none => absurd none List.not_mem_nil
  | cons first rest ih =>
    obtain ⟨answer, touches, tail⟩ := Outcome.bind_eq_ok.mp found
    obtain ⟨_, foundRest, _⟩ := Outcome.bind_eq_ok.mp tail
    exact List.forall_mem_cons.mpr ⟨⟨answer, touches⟩, ih foundRest⟩

namespace Registration

variable {entry : Registration}

theorem rules_refusedOnly (entry : Registration) (shapes : List Polyomino) :
    Outcome.RefusedOnly Error.IsOverflow (entry.rules shapes) := by
  refine .bind (.mapM fun numbered _ => ?_) fun _ _ => .of_ok _
  change Outcome.RefusedOnly _ (entry.orientationRules numbered.2 numbered.1)
  rw [orientationRules_eq]
  refine .bind (touchingPairs_refusedOnly _ _) fun _ _ => .bind ?_ fun outer _ => ?_
  · cases entry.loose with
    | true => exact .of_ok _
    | false => exact stepsOut_refusedOnly _ _ _
  · exact .bind (.mapM fun step _ => wayBack_refusedOnly step.2) fun _ _ => .of_ok _

theorem register_refusedOnly (entry : Registration) {cells : List Cell} (nonempty : cells ≠ []) {memo : Memo}
    (sound : memo.Sound) : Outcome.RefusedOnly Error.IsOverflow (entry.register cells memo).1 := by
  rw [register_eq entry cells sound]
  refine .bind (.bind (Polyomino.ofCells_refusedOnly nonempty) fun shape _ => ?_) fun shapes _ => ?_
  · exact Polyomino.orientations_refusedOnly shape .full
  · exact entry.rules_refusedOnly shapes

section Rules

variable (normal : shape.Normal) {found : List Polyomino} (ended : shape.orientations .full = .ok found)
include normal ended

theorem spread_of_rules {program : Program} (built : entry.rules found = .ok program) (sides : entry.kind ≠ .corner) :
    ∀ a ∈ shape.cells, ∀ b ∈ shape.cells,
      (a.row.val - b.row.val).natAbs + (a.col.val - b.col.val).natAbs ≤ 2147483647 := by
  intro a inA b inB
  obtain ⟨index, numbered⟩ := List.mem_iff_getElem?.mp (normal.mem_orientations ended)
  obtain ⟨linked, outer, surveyed⟩ := surveyed_of_rules built numbered
  have measured := touches_of_touchingPairs surveyed.linked_eq
  by_cases same : a = b
  · rw [same]
    omega
  · rcases Cell.mem_pairs_or inA inB same with member | member
    · exact (Adjacency.exists_touches_iff.mp (measured _ member)).sum_le sides
    · have sum := (Adjacency.exists_touches_iff.mp (measured _ member)).sum_le sides
      dsimp only at sum
      omega

theorem compact_of_rules {program : Program} (built : entry.rules found = .ok program) (strict : entry.loose = false) :
    shape.Compact := by
  refine normal.compact_of_roomy ended fun image member => ?_
  obtain ⟨index, numbered⟩ := List.mem_iff_getElem?.mp member
  obtain ⟨linked, outer, surveyed⟩ := surveyed_of_rules built numbered
  have outer_eq := surveyed.outer_eq
  rw [strict, if_neg Bool.false_ne_true] at outer_eq
  exact shift_of_stepsOut outer_eq

/-- Turning the shape keeps how far apart its cells are, so that all orientations can be surveyed. -/
theorem measured_of_spread (spread : kind ≠ .corner → ∀ a ∈ shape.cells, ∀ b ∈ shape.cells,
      (a.row.val - b.row.val).natAbs + (a.col.val - b.col.val).natAbs ≤ 2147483647) :
    ∀ image ∈ found, ∀ a ∈ image.cells, ∀ b ∈ image.cells, kind.Measured a b := by
  intro image member a inA b inB
  obtain ⟨imageNormal, imageNarrow, orientation, turned⟩ := normal.of_orientations ended member
  obtain ⟨offset, source, _⟩ := turned.source
  obtain ⟨a', inA', fromA⟩ := source a inA
  obtain ⟨b', inB', fromB⟩ := source b inB
  have distances := Adjacency.distances_act fromA fromB
  cases kind with
  | corner =>
    have rowsA := imageNormal.row_bounds inA
    have rowsB := imageNormal.row_bounds inB
    have right := imageNarrow a inA b inB
    have left := imageNarrow b inB a inA
    exact ⟨by omega, fun _ => by omega⟩
  | side | around | walled | path | directedPath =>
    have sum := spread nofun a' inA' b' inB'
    simp only [Adjacency.Measured]
    omega

theorem exists_rules_iff : (∃ program, entry.rules found = .ok program) ↔
    (entry.kind ≠ .corner → ∀ a ∈ shape.cells, ∀ b ∈ shape.cells,
      (a.row.val - b.row.val).natAbs + (a.col.val - b.col.val).natAbs ≤ 2147483647) ∧
    (entry.loose = false → shape.Compact) := by
  constructor
  · rintro ⟨program, built⟩
    exact ⟨spread_of_rules normal ended built, compact_of_rules normal ended built⟩
  · rintro ⟨spread, compact⟩
    refine entry.exists_rules (fun image member pair listed => ?_) fun strict image member step listed => ?_
    · obtain ⟨inA, inB⟩ := Cell.mem_of_mem_pairs listed
      exact Adjacency.exists_touches_iff.mpr (measured_of_spread normal ended spread image member _ inA _ inB)
    · have leads := normal.steps_of_compact ended (compact strict) image member step listed
      exact leads.imp fun _ next => ⟨next.1, exists_wayBack_iff.mpr next.2⟩

end Rules

/-- The cells lie so that they can be registered: the first in reading order keeps off the least coordinate, no two are
farther apart than coordinates and the distances that are compared can be, and there is room around them if it is looked
at. -/
structure InReach (entry : Registration) (cells : List Cell) : Prop where
  first : ∀ cell ∈ cells, (∀ other ∈ cells, ¬ other < cell) →
    cell.row.val ≠ -2147483648 ∧ cell.col.val ≠ -2147483648
  spans : ∀ a ∈ cells, ∀ b ∈ cells, a.row.val - b.row.val ≤ 2147483647 ∧ a.col.val - b.col.val ≤ 2147483647
  spread : entry.kind ≠ .corner → ∀ a ∈ cells, ∀ b ∈ cells,
    (a.row.val - b.row.val).natAbs + (a.col.val - b.col.val).natAbs ≤ 2147483647
  room : entry.loose = false → ∀ a ∈ cells, ∀ b ∈ cells,
    a.row.val - b.row.val ≤ 2147483646 ∧ a.col.val - b.col.val ≤ 2147483646

variable {cells : List Cell} {memo : Memo}

theorem exists_register_iff (nonempty : cells ≠ []) (sound : memo.Sound) :
    (∃ program, (entry.register cells memo).1 = .ok program) ↔ entry.InReach cells := by
  rw [register_eq entry cells sound]
  constructor
  · rintro ⟨program, built⟩
    obtain ⟨found, turned, ruled⟩ := Outcome.bind_eq_ok.mp built
    obtain ⟨shape, made, ended⟩ := Outcome.bind_eq_ok.mp turned
    have normal := Polyomino.normal_ofCells made
    have narrow := normal.exists_orientations_iff.mp ⟨found, ended⟩
    obtain ⟨spread, compact⟩ := (exists_rules_iff normal ended).mp ⟨program, ruled⟩
    refine ⟨fun cell listed least => ((Polyomino.exists_ofCells_iff listed least).mp ⟨shape, made⟩).1, ?_, fun sides => ?_,
      fun strict => ?_⟩
    · refine (Polyomino.ofCells_differences made fun rows cols => rows ≤ 2147483647 ∧ cols ≤ 2147483647).mp ?_
      intro a inA b inB
      have rowsA := normal.row_bounds inA
      have rowsB := normal.row_bounds inB
      exact ⟨by omega, narrow a inA b inB⟩
    · exact (Polyomino.ofCells_differences made fun rows cols => rows.natAbs + cols.natAbs ≤ 2147483647).mp (spread sides)
    · exact (Polyomino.ofCells_differences made fun rows cols => rows ≤ 2147483646 ∧ cols ≤ 2147483646).mp (compact strict)
  · intro reach
    obtain ⟨least, listed, first⟩ := Cell.exists_least nonempty
    obtain ⟨shape, made⟩ : ∃ shape, Polyomino.ofCells cells = .ok shape := by
      refine (Polyomino.exists_ofCells_iff listed first).mpr ⟨reach.first least listed first, fun cell member => ?_⟩
      have after := reach.spans cell member least listed
      have before := reach.spans least listed cell member
      omega
    have normal := Polyomino.normal_ofCells made
    have narrow : shape.Narrow := (Polyomino.ofCells_differences made fun _ cols => cols ≤ 2147483647).mpr
      fun a inA b inB => (reach.spans a inA b inB).2
    obtain ⟨found, ended⟩ := normal.exists_orientations_iff.mpr narrow
    obtain ⟨program, ruled⟩ : ∃ program, entry.rules found = .ok program := (exists_rules_iff normal ended).mpr
      ⟨fun sides => (Polyomino.ofCells_differences made fun rows cols => rows.natAbs + cols.natAbs ≤ 2147483647).mpr
          (reach.spread sides),
        fun strict => (Polyomino.ofCells_differences made fun rows cols => rows ≤ 2147483646 ∧ cols ≤ 2147483646).mpr
          (reach.room strict)⟩
    exact ⟨program, (Outcome.bind_of_ok ((Outcome.bind_of_ok made _).trans ended) _).trans ruled⟩

/-- A registration is refused as a coordinate does not fit exactly if the cells are out of reach. -/
theorem register_overflows_iff (entry : Registration) (cells : List Cell) (sound : memo.Sound) :
    (∃ operation, (entry.register cells memo).1 = .error (.overflow operation)) ↔ ¬ entry.InReach cells := by
  by_cases none : cells = []
  · subst none
    have empty : (entry.register [] memo).1 = .error .emptyShape := rfl
    have reach : entry.InReach [] := ⟨by simp, by simp, by simp, by simp⟩
    simp [empty, reach]
  · rw [(entry.register_refusedOnly none sound).overflows_iff, exists_register_iff none sound]

theorem register_fits {program : Program} (sound : memo.Sound) (id : Fits64 entry.id)
    (built : (entry.register cells memo).1 = .ok program) : program.Fits := by
  rw [register_eq entry cells sound] at built
  obtain ⟨found, turned, ruled⟩ := Outcome.bind_eq_ok.mp built
  obtain ⟨shape, made, ended⟩ := Outcome.bind_eq_ok.mp turned
  have normal := Polyomino.normal_ofCells made
  have own : ∀ image ∈ found, ∀ cell ∈ image.cells, (Place.here.step cell).Fits := by
    intro image member cell inside
    obtain ⟨imageNormal, imageNarrow, _⟩ := normal.of_orientations ended member
    have rows := imageNormal.row_bounds inside
    have cols := imageNormal.col_bounds imageNarrow inside
    exact Place.fits_step.mpr ⟨by omega, by omega⟩
  have keyed (relation : String) (place : Place) (index : Nat) (fits : place.Fits) :
      (entry.keyed relation place index).Fits := by
    simp [keyed, or_imp, forall_and, fits, id]
  intro statement member
  rcases (mem_rules ruled statement).mp member with ⟨_, rfl⟩ | ⟨index, image, linked, outer, numbered, surveyed, rule⟩
  · simp [touchRule, or_imp, forall_and]
  have inFound := List.mem_of_getElem? numbered
  rcases rule with rfl | ⟨cell, inside, rfl⟩
  · refine ⟨keyed _ _ index Place.fits_here, ?_⟩
    rw [body, List.forall_mem_append, List.forall_mem_append, cellsMatch, List.forall_mem_flatMap, List.forall_mem_map,
      List.forall_mem_map]
    refine ⟨⟨fun cell inside => ?_, fun pair listed => ?_⟩, fun pair listed => ?_⟩
    · simp [own image inFound cell inside]
    · obtain ⟨inA, inB⟩ := Cell.mem_of_mem_pairs ((touchingPairs_eq_ok surveyed.linked_eq).mp listed).1
      simp [own image inFound _ inA, own image inFound _ inB]
    · obtain ⟨strict, offset, stepListed, stepped⟩ := surveyed.mem_outer listed
      have compact := compact_of_rules normal ended ruled strict
      obtain ⟨next, stepped', rows, cols⟩ := normal.steps_of_compact ended compact image inFound _ stepListed
      cases stepped.symm.trans stepped'
      have rowRange := pair.2.row.inRange
      have colRange := pair.2.col.inRange
      have out : (Place.here.step pair.2).Fits := Place.fits_step.mpr ⟨by omega, by omega⟩
      simp [or_imp, forall_and, own image inFound _ (Cell.mem_steps.mp stepListed).1, out]
  · simp [keyed _ _ index (own image inFound cell inside), keyed _ _ index Place.fits_here, root]

end Registration

end Template

end GridPuzzle
