import GridPuzzle.Proofs.Template.Border
import GridPuzzle.Proofs.Template.Pattern
import GridPuzzle.Proofs.Template.Reach
import GridPuzzle.Template.Call

/-!
Calls that no arithmetic fails. Only registrations can be refused as a coordinate does not fit, and whatever a call
builds has numbers that fit if the numbers in its arguments do.
-/
namespace GridPuzzle.Template

@[simp] theorem spread_fits (label : String) (color : Color) (kind : Adjacency) : (spread label color kind).Fits := by
  simp [spread]

@[simp] theorem covered_fits (label : String) (color : Color) : (covered label color).Fits := by
  simp [covered]

@[simp] theorem degree_fits {relation : String} {comparator : Comparator} {sides : Int} :
    (degree relation comparator sides).Fits ↔ Fits64 sides := by
  simp [degree, anySide, or_imp, forall_and]

@[simp] theorem answered_fits (relation answer : String) (side : Side) : (answered relation answer side).Fits := by
  simp [answered]

theorem agreeing_fits (relation answer : String) : ∀ statement ∈ Side.all.flatMap fun side =>
    [answered relation answer side, answered answer relation side], statement.Fits := by
  rw [List.forall_mem_flatMap]
  intro side _
  simp

@[simp] theorem markedEnd_fits (color : Color) (marker relation : String) :
    ∀ statement ∈ markedEnd color marker relation, statement.Fits := by
  simp +decide [markedEnd, or_imp, forall_and]

@[simp] theorem passedThrough_fits (color : Color) (first second : Side) :
    ∀ literal ∈ passedThrough color first second, literal.Fits := by
  simp [passedThrough]

theorem neighbors_fits (kind : Adjacency) (includeSelf : Bool) : (neighbors kind includeSelf).Fits := by
  cases kind <;> cases includeSelf <;>
    simp +decide [neighbors, joins, joinedWhen, symmetric, joinedWithoutWall, joinedByPath, oneStepApart,
      diagonallyApart, distance, or_imp, forall_and]

theorem area_fits {id : Int} (fits : Fits64 id) (cells : List Cell) : (area id cells).Fits := by
  simp [area, fits]

theorem display_fits (item : String) (arity : Nat) : (display item arity).Fits := by
  simp [display]

theorem declare_fits (item : String) (arity : Nat) : (declare item arity).Fits := by
  simp [declare]

theorem sides_fits (allowed : List Side) : (sides allowed).Fits := by
  simp [sides]

theorem count_fits {target : Target} (color : Color) (scope : Scope) {id : Option Int}
    (bound : Fits64 target.forbidden.2) (fits : ∀ number ∈ id, Fits64 number) : (count target color scope id).Fits := by
  cases scope <;> cases id <;> simp_all [count, unmet, or_imp]

theorem countPieces_fits {target : Target} (name : String) {id : Option Int} (color : Color) (scope : Scope)
    (bound : Fits64 target.forbidden.2) (fits : ∀ number ∈ id, Fits64 number) :
    (countPieces target name id color scope).Fits := by
  cases scope <;> cases id <;> simp_all [countPieces, unmet, or_imp]

theorem coveredByPieces_fits (name : String) (color : Color) (scope : Scope) :
    (coveredByPieces name color scope).Fits := by
  simp [coveredByPieces, or_imp, forall_and]

theorem connected_fits (color : Color) (kind : Adjacency) (size : Option (Coord × Coord)) :
    (connected color kind size).Fits := by
  have half (coord : Coord) : Fits64 (coord.val.tdiv 2) := by
    have fits := coord.inRange
    have smaller := Int.natAbs_tdiv_le_natAbs coord.val 2
    unfold Fits64
    omega
  cases size <;> simp [connected, distance, half]

theorem connectedInAreas_fits (color : Color) (kind : Adjacency) : (connectedInAreas color kind).Fits := by
  simp [connectedInAreas]

theorem separatedByBits_fits (color : Color) (kind : Adjacency) : (separatedByBits color kind).Fits := by
  simp [separatedByBits, or_imp, forall_and]

theorem reachedFromSome_fits (color : Color) (kind : Adjacency) : (reachedFromSome color kind).Fits := by
  simp [reachedFromSome, reaches, or_imp, forall_and]

theorem reachFrom_fits (source : Cell) (required forbidden : List Cell) (color : Option Color) (kind : Adjacency) :
    (reachFrom source required forbidden color kind).Fits := by
  by_cases walled : kind = .walled <;> cases color <;> simp [reachFrom, reaches, walled, or_imp, forall_and]

theorem lightFrom_fits (source : Cell) (color : Color) (kind : Adjacency) : (lightFrom source color kind).Fits := by
  simp +decide [lightFrom, reaches, or_imp, forall_and]

theorem sourceBits_fits (source : Cell) (id : UInt64) (first : Nat) {last : Nat} (fits : Fits64 last) :
    (sourceBits source id first last).Fits := by
  have position : ∀ bit ∈ List.range' first (last - first), Fits64 bit := by
    intro bit listed
    have bounds := List.mem_range'_1.mp listed
    unfold Fits64 at fits ⊢
    omega
  rw [sourceBits, Program.fits_mk, List.forall_mem_map]
  intro bit listed
  simp [or_imp, forall_and, position bit listed]

theorem colorRoles_fits (color : Color) : ∀ statement ∈ colorRoles color, statement.Fits := by
  cases color <;> simp [colorRoles, unmatched, Roles.aroundInner, before, above]

theorem squareGroups_fits (color : Color) : ∀ statement ∈ squareGroups color, statement.Fits := by
  simp [squareGroups, firstEnd, unequalExtents, below, after, or_imp, forall_and]

theorem rectangles_fits (color : Color) (square : Bool) : (rectangles color square).Fits := by
  rw [rectangles, Program.fits_mk, List.forall_mem_append, List.forall_mem_append]
  refine ⟨⟨colorRoles_fits color, ?_⟩, ?_⟩
  · simp [Roles.none]
  · cases square with
    | true => exact squareGroups_fits color
    | false => simp

theorem rectangularRegions_fits (square : Bool) : (rectangularRegions square).Fits := by
  rw [rectangularRegions, Program.fits_mk, List.forall_mem_append, List.forall_mem_append, List.forall_mem_append]
  refine ⟨⟨⟨?_, ?_⟩, ?_⟩, ?_⟩
  · simp [regionRoles, Roles.aroundInner, above, before]
  · simp [Roles.none]
  · simp [aligned, unaligned, diagonal, below, after]
  · cases square <;> simp [squareRegions, firstWall, unequalExtents]

theorem noRectangle_fits (color : Color) : (noRectangle color).Fits := by
  simp +decide [noRectangle, bend, window, or_imp, forall_and]

theorem noCrossing_fits : noCrossing.Fits := by
  simp [noCrossing, after, below, diagonal]

theorem freePath_fits (color : Color) (directed : Bool) : (freePath color directed).Fits := by
  cases directed <;> simp [freePath, pickSides, anySide, or_imp, forall_and]

theorem passes_fits (color : Color) {degrees : List Int} (fits : ∀ number ∈ degrees, Fits64 number) (deadEnds : Bool) :
    (passes color degrees deadEnds).Fits := by
  cases deadEnds <;> simp +decide [passes, or_imp, forall_and] <;> simpa using fits

theorem directedLoop_fits (color : Color) (path : Bool) : (directedLoop color path).Fits := by
  have ends := fun marker relation => markedEnd_fits color marker relation
  rw [directedLoop, Program.fits_mk, List.forall_mem_append, List.forall_mem_append]
  refine ⟨⟨?_, ?_⟩, agreeing_fits _ _⟩
  · cases path with
    | true => simpa [or_imp, forall_and] using ⟨ends pathStart Relation.enters, ends pathEnd Relation.leaves⟩
    | false => simp +decide [or_imp, forall_and]
  · simp [anySide, or_imp, forall_and]

theorem loopSigns_fits (color : Color) : (loopSigns color).Fits := by
  rw [loopSigns, Program.fits_mk, List.forall_mem_map]
  intro entry _
  exact ⟨by simp [or_imp, forall_and], passedThrough_fits color _ _⟩

theorem straight_fits (color : Color) : (straight color).Fits := by
  have through := passedThrough_fits color
  simpa [straight] using ⟨through _ _, through _ _⟩

theorem turning_fits (color : Color) : (turning color).Fits := by
  have through := passedThrough_fits color
  simpa [turning] using ⟨through _ _, through _ _, through _ _, through _ _⟩

theorem loopSegments_fits (source : Cell) : (loopSegments source).Fits := by
  simp [loopSegments, runEnd, or_imp, forall_and]

theorem sidesOfLoop_fits (inside outside : Option Color) : (sidesOfLoop inside outside).Fits := by
  cases inside <;> cases outside <;> simp +decide [sidesOfLoop, or_imp, forall_and]

/-- No coordinate keeps the program from being built, and its numbers fit. -/
structure Safe (outcome : Except Error Program) : Prop where
  refusedOnly : Outcome.RefusedOnly (fun error => ¬ error.IsOverflow) outcome
  fits : ∀ program, outcome = .ok program → program.Fits

namespace Safe

theorem of_fits {program : Program} (fits : program.Fits) : Safe (.ok program) :=
  ⟨.of_ok _, fun _ same => Except.ok.inj same ▸ fits⟩

theorem bind {α : Type} {first : Except Error α} {next : α → Except Error Program}
    (only : Outcome.RefusedOnly (fun error => ¬ error.IsOverflow) first)
    (each : ∀ value, first = .ok value → Safe (next value)) : Safe (first >>= next) := by
  refine ⟨only.bind fun value made => (each value made).refusedOnly, fun program built => ?_⟩
  obtain ⟨value, made, built⟩ := Outcome.bind_eq_ok.mp built
  exact (each value made).fits program built

end Safe

theorem requireCells_refusedOnly (rows cols : Coord) :
    Outcome.RefusedOnly (fun error => ¬ error.IsOverflow) (requireCells rows cols) := by
  unfold requireCells
  split
  · rintro _ ⟨⟩ ⟨_, same⟩
    cases same
  · exact .of_ok _

theorem derivable_refusedOnly (color : Color) :
    Outcome.RefusedOnly (fun error => ¬ error.IsOverflow) color.derivable := by
  cases color with
  | positive name => exact .of_ok _
  | negated name =>
    rintro _ ⟨⟩ ⟨_, same⟩
    cases same

theorem last_refusedOnly {size : Coord} (positive : 0 < size.val) :
    Outcome.RefusedOnly (fun error => ¬ error.IsOverflow) (last size) := by
  have range := size.inRange
  have one : (Coord.of 1).val = 1 := rfl
  rw [last, Coord.sub, Coord.checked_ok (by omega)]
  exact .of_ok _

theorem grid_safe (rows cols : Coord) : Safe (grid rows cols) := by
  refine .bind (requireCells_refusedOnly rows cols) fun _ sized => ?_
  obtain ⟨tall, wide⟩ := Pattern.requireCells_eq_ok.mp sized
  refine .bind (last_refusedOnly tall) fun bottom _ => .bind (last_refusedOnly wide) fun right _ => .of_fits ?_
  simp +decide

theorem walls_safe (rows cols : Coord) : Safe (walls rows cols) := by
  refine .bind (requireCells_refusedOnly rows cols) fun _ sized => ?_
  obtain ⟨tall, wide⟩ := Pattern.requireCells_eq_ok.mp sized
  refine .bind (last_refusedOnly tall) fun bottom _ => .bind (last_refusedOnly wide) fun right _ => .of_fits ?_
  simp +decide

theorem shade_safe (color : Color) (scope : Scope) : Safe (shade color scope) := by
  refine .bind (derivable_refusedOnly color) fun name _ => .of_fits ?_
  cases scope <;> simp

theorem shadeOneOf_safe (colors : List Color) : Safe (shadeOneOf colors) := by
  refine .bind (.mapM fun color _ => derivable_refusedOnly color) fun names _ => .of_fits ?_
  simp +decide

theorem complement_safe (color inverse : Color) : Safe (complement color inverse) := by
  refine .bind (derivable_refusedOnly inverse) fun name _ => .of_fits ?_
  simp

theorem connectedToBorder_safe (rows cols : Coord) (color : Color) (kind : Adjacency) :
    Safe (connectedToBorder rows cols color kind) := by
  refine .bind (requireCells_refusedOnly rows cols) fun _ sized => .of_fits ?_
  obtain ⟨tall, wide⟩ := Pattern.requireCells_eq_ok.mp sized
  have rowRange := rows.inRange
  have colRange := cols.inRange
  rw [Program.fits_mk, List.forall_mem_append, List.forall_mem_map]
  refine ⟨fun cell listed => ?_, by simp⟩
  obtain ⟨⟨inRows, inCols⟩, _⟩ := (mem_ring (by omega)).mp listed
  have row : Fits64 cell.1 := by unfold Fits64; omega
  have col : Fits64 cell.2 := by unfold Fits64; omega
  simp [row, col]

theorem noBlock_safe (height width : Coord) (color : Color) (corner : Option Cell) :
    Safe (noBlock height width color corner) := by
  refine ⟨.bind (requireCells_refusedOnly height width) fun _ _ => .of_ok _, fun program built => ?_⟩
  obtain ⟨_, rfl⟩ := Pattern.block_of_ok built
  have heightRange := height.inRange
  have widthRange := width.inRange
  rw [Program.fits_mk, List.forall_mem_singleton, Statement.fits_constraint, forall_blockBody]
  intro down along inHeight inWidth
  have place : (Place.mk (((corner.map Place.ofCell).getD .here).row.shift down)
      (((corner.map Place.ofCell).getD .here).col.shift along)).Fits := by
    cases corner with
    | none =>
      simp only [Option.map_none, Option.getD_none, Place.here, Term.shift, Place.fits_mk, Term.fits_var]
      omega
    | some cell =>
      have rowRange := cell.row.inRange
      have colRange := cell.col.inRange
      simp only [Option.map_some, Option.getD_some, Place.ofCell, Term.shift, Place.fits_mk, Term.fits_int, Fits64]
      omega
  cases color <;> simp [blockCell, Color.isNegated, place]

namespace Call

/-- The numbers among the arguments that are not coordinates. -/
def numbers : Call → List Int
  | .area id _ => [id]
  | .count target _ _ id => target.forbidden.2 :: id.toList
  | .register entry _ => [entry.id]
  | .countPieces target _ id _ _ => target.forbidden.2 :: id.toList
  | .sourceBits _ _ _ last => [last]
  | _ => []

/-- Cells to register lie close enough together, and no other arguments matter. -/
def InReach : Call → Prop
  | .register entry cells => entry.InReach cells
  | _ => True

variable {call : Call} {memo : Memo}

theorem run_safe (sound : memo.Sound) (fits : ∀ number ∈ call.numbers, Fits64 number) (reach : call.InReach) :
    Safe (call.run memo) := by
  cases call with
  | neighbors kind includeSelf => exact .of_fits (neighbors_fits kind includeSelf)
  | grid rows cols => exact grid_safe rows cols
  | walls rows cols => exact walls_safe rows cols
  | area id cells => exact .of_fits (area_fits (fits id List.mem_cons_self) cells)
  | display item arity => exact .of_fits (display_fits item arity)
  | declare item arity => exact .of_fits (declare_fits item arity)
  | shade color scope => exact shade_safe color scope
  | shadeOneOf colors => exact shadeOneOf_safe colors
  | complement color inverse => exact complement_safe color inverse
  | count target color scope id =>
    obtain ⟨bound, own⟩ := List.forall_mem_cons.mp fits
    exact .of_fits (count_fits color scope bound fun number given => own number (Option.mem_toList.mpr given))
  | sides allowed => exact .of_fits (sides_fits allowed)
  | register entry cells =>
    refine ⟨fun error refused overflow => ?_, fun program => Registration.register_fits sound (fits _ List.mem_cons_self)⟩
    obtain ⟨operation, rfl⟩ := overflow
    exact (Registration.register_overflows_iff entry cells sound).mp ⟨operation, refused⟩ reach
  | coveredByPieces name color scope => exact .of_fits (coveredByPieces_fits name color scope)
  | countPieces target name id color scope =>
    obtain ⟨bound, own⟩ := List.forall_mem_cons.mp fits
    exact .of_fits (countPieces_fits name color scope bound fun number given => own number (Option.mem_toList.mpr given))
  | connected color kind size => exact .of_fits (connected_fits color kind size)
  | connectedToBorder rows cols color kind => exact connectedToBorder_safe rows cols color kind
  | connectedInAreas color kind => exact .of_fits (connectedInAreas_fits color kind)
  | separatedByBits color kind => exact .of_fits (separatedByBits_fits color kind)
  | reachedFromSome color kind => exact .of_fits (reachedFromSome_fits color kind)
  | reachFrom source required forbidden color kind =>
    exact .of_fits (reachFrom_fits source required forbidden color kind)
  | lightFrom source color kind => exact .of_fits (lightFrom_fits source color kind)
  | sourceBits source id first last => exact .of_fits (sourceBits_fits source id first (fits _ List.mem_cons_self))
  | rectangles color square => exact .of_fits (rectangles_fits color square)
  | rectangularRegions square => exact .of_fits (rectangularRegions_fits square)
  | noBlock height width color corner => exact noBlock_safe height width color corner
  | noRectangle color => exact .of_fits (noRectangle_fits color)
  | noCrossing => exact .of_fits noCrossing_fits
  | freePath color directed => exact .of_fits (freePath_fits color directed)
  | simpleLoop color deadEnds => exact .of_fits (passes_fits color (by decide) deadEnds)
  | crossingLoop color deadEnds => exact .of_fits (passes_fits color (by decide) deadEnds)
  | directedLoop color path => exact .of_fits (directedLoop_fits color path)
  | loopSigns color => exact .of_fits (loopSigns_fits color)
  | straight color => exact .of_fits (straight_fits color)
  | turning color => exact .of_fits (turning_fits color)
  | loopSegments source => exact .of_fits (loopSegments_fits source)
  | sidesOfLoop inside outside => exact .of_fits (sidesOfLoop_fits inside outside)

/-- A call is refused as a coordinate does not fit exactly if it registers cells that are out of reach. Any other call
gives a program or is refused for another reason, and then neither the numbers of the program nor the ways from its
variables are too large. -/
theorem run_overflows_iff (call : Call) (sound : memo.Sound) (fits : ∀ number ∈ call.numbers, Fits64 number) :
    ((∃ operation, call.run memo = .error (.overflow operation)) ↔ ¬ call.InReach) ∧
      ∀ program, call.run memo = .ok program → program.Fits := by
  have overflows : (∃ operation, call.run memo = .error (.overflow operation)) ↔ ¬ call.InReach := by
    constructor
    · rintro ⟨operation, refused⟩ reach
      exact (run_safe sound fits reach).refusedOnly _ refused ⟨operation, rfl⟩
    · intro outside
      cases call with
      | register entry cells => exact (Registration.register_overflows_iff entry cells sound).mpr outside
      | _ => exact absurd trivial outside
  refine ⟨overflows, fun program built => ?_⟩
  by_cases reach : call.InReach
  · exact (run_safe sound fits reach).fits program built
  · obtain ⟨operation, refused⟩ := overflows.mpr reach
    rw [refused] at built
    cases built

/-- Two cells at the ends of the longest row that can be registered with room around it. -/
def longest : Call :=
  .register ⟨"far", 9223372036854775807, .negated "black", .area, .walled, false⟩ [⟨.of (-1), .greatest⟩, .of (-1) 1]

theorem run_overflows_iff_longest : (∀ number ∈ longest.numbers, Fits64 number) ∧
    (¬ ∃ operation, longest.run .empty = .error (.overflow operation)) ∧
      ∀ program, longest.run .empty = .ok program → program.Fits := by
  have numbers : ∀ number ∈ longest.numbers, Fits64 number := by decide
  have reach : longest.InReach := ⟨by decide, by decide, fun _ => by decide, fun _ => by decide⟩
  obtain ⟨overflows, fits⟩ := run_overflows_iff longest Memo.sound_empty numbers
  exact ⟨numbers, fun refused => overflows.mp refused reach, fits⟩

/-- A single cell can be registered, but not if it lies at the least coordinate. -/
theorem register_least : Fits64 0 ∧
    run .empty (.register ⟨"d", 0, .positive "black", .grid, .side, true⟩ [⟨⟨-2147483648, by decide⟩, .of 0⟩]) =
      .error (.overflow .negate) ∧
    ∃ program, run .empty (.register ⟨"d", 0, .positive "black", .grid, .side, true⟩ [.of 0 0]) = .ok program := by
  exact ⟨by decide, rfl, _, rfl⟩

end Call

end GridPuzzle.Template
