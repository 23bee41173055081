import GridPuzzle.Proofs.Plane.Run
import GridPuzzle.Proofs.Rules.Compose
import GridPuzzle.Proofs.Rules.Extremum
import GridPuzzle.Proofs.Rules.Line
import GridPuzzle.Proofs.Template.LoopSides

/-!
Straight runs of loops. The two extreme numbers that the rules ask for are the ends of the run through a cell, so
that one fact is derived for its row and one for its column.
-/
namespace GridPuzzle

/-- The greatest number is asked for among those up to the origin, and the least among those from it on. -/
def Extremum.Towards : Extremum → Int → Int → Prop
  | .greatest, origin, number => number ≤ origin
  | .least, origin, number => origin ≤ number

namespace Template

variable {rows cols : Nat} {course : Course rows cols} {given : World} {source : Cell} {line : Line}

section Ends

variable {binding : Binding} {outer : List String} {target candidate : String} {start : Term}
  {place : Term → Place} {origin : Int} (draws : given.Draws Relation.passes course)
  (runs : Runs binding outer candidate start place origin line.row line.col)
include draws runs

/-- The numbers of the cells on the line that the loop does not leave through the side. -/
private theorem yields_stop (which : Extremum) (comparator : Comparator)
    (compares : ∀ number, comparator.Relates (.num number) (.num origin) ↔ which.Towards origin number)
    (side : Side) (tuple : List Value) : Element.Yields given outer binding ⟨[.term (.var candidate 0)],
        [onGrid (place (.var candidate 0)), .compare comparator (.term (.var candidate 0)) (.term start),
          .fails (side.fact Relation.passes (place (.var candidate 0)))]⟩ tuple ↔
      ∃ number ∈ {number ∈ course.stops line side | which.Towards origin number}, tuple = [.num number] := by
  have cells (fact : Fact) (holds : given fact) (same : fact.relation = Relation.grid) :
      ∃ r c, fact = .cell Relation.grid r c := by
    obtain ⟨r, c, _, rfl⟩ := (draws.grid fact same).mp holds
    exact ⟨r, c, rfl⟩
  have met : ∀ inner : Binding, (∀ name ∈ outer, inner name = binding name) → ∀ number,
      inner candidate = .num number → ((∀ test ∈ [Test.compare comparator (.term (.var candidate 0)) (.term start),
        .fails (side.fact Relation.passes (place (.var candidate 0)))], test.Holds given inner) ↔
        which.Towards origin number ∧ course.passes (line.row number) (line.col number) side = false) := by
    intro inner agree number bound
    have stands := runs.stands inner agree 0 number (bound ▸ Term.stands_var candidate)
    rw [List.forall_mem_cons, List.forall_mem_singleton, runs.compare_holds agree bound, compares,
      fails_side stands, draws.through_iff, Bool.not_eq_true]
  refine (runs.yields cells met 0 tuple).trans (exists_congr fun number => ?_)
  rw [Int.add_zero, draws.grid_cell, and_comm (a := which.Towards origin number), ← and_assoc]
  exact Iff.rfl

theorem runEnd_holds (which : Extremum) (side : Side)
    (nonempty : {number ∈ course.stops line side | which.Towards origin number}.Nonempty) :
    (runEnd target candidate which start place side).Holds given outer binding ↔
      ∃ number, binding target = .num number ∧
        which.Picks {number ∈ course.stops line side | which.Towards origin number} number := by
  refine Literal.extremum_holds_iff which (fun tuple => ?_) nonempty
  simp only [List.mem_singleton, exists_eq_left]
  cases which with
  | greatest =>
    refine yields_stop draws runs .greatest .le (fun number => ?_) side tuple
    rw [Comparator.Relates, Value.num.injEq]
    exact le_iff_lt_or_eq.symm
  | least =>
    refine yields_stop draws runs .least .ge (fun number => ?_) side tuple
    rw [Comparator.Relates, Value.num.injEq, @eq_comm _ number]
    exact le_iff_lt_or_eq.symm

end Ends

/-- The fact that the straight run through a cell, in the way that the letter tells, has these ends. -/
def segment (source : Cell) (first last : Int) (letter : String) : Fact :=
  ⟨"loop_segment", [.num source.row.val, .num source.col.val, .num first, .num last, .str letter]⟩

/-- The head of a rule about the run through a cell. -/
def segmentHead (source : Cell) (first last letter : String) : Atom :=
  ⟨"loop_segment", [(Place.ofCell source).row, (Place.ofCell source).col, .var first 0, .var last 0, .str letter]⟩

/-- The body of a rule about the run through a cell. -/
def segmentBody (first last candidate : String) (line : Line) (start : Term) (place : Term → Place) : List Literal :=
  [runEnd first candidate .greatest start place line.before, runEnd last candidate .least start place line.after]

def rowBody (source : Cell) : List Literal :=
  segmentBody "C1" "C2" "C0" (.ofRow source.row.val) (Place.ofCell source).col (⟨(Place.ofCell source).row, ·⟩)

def colBody (source : Cell) : List Literal :=
  segmentBody "R1" "R2" "R0" (.ofCol source.col.val) (Place.ofCell source).row (⟨·, (Place.ofCell source).col⟩)

theorem rule_mem_loopSegments {head : Atom} {body : List Literal} :
    .rule head body ∈ (loopSegments source).statements ↔
      (head = segmentHead source "C1" "C2" "H" ∧ body = rowBody source) ∨
      head = segmentHead source "R1" "R2" "V" ∧ body = colBody source := by
  simp [loopSegments, segmentHead, segmentBody, rowBody, colBody, Line.ofRow, Line.ofCol]

theorem fact_mem_loopSegments {atom : Atom} : .fact atom ∉ (loopSegments source).statements := by
  simp [loopSegments]

/-- A rule derives one fact for each run through the cell along its line. -/
private theorem segment_met {length origin : Int} {first last candidate letter : String} {start : Term}
    {place : Term → Place} {fact : Fact} (draws : given.Draws Relation.passes course)
    (follows : course.Follows line length) (inside : InGrid rows cols (line.row origin) (line.col origin))
    (runs : ∀ binding outer, candidate ∉ outer → Runs binding outer candidate start place origin line.row line.col)
    (apart : last ≠ first) (free : candidate ∉ [first, last, first, last]) :
    (∃ binding, (segmentHead source first last letter).Denotes binding fact ∧
      ∀ literal ∈ segmentBody first last candidate line start place, literal.Holds given
        (Program.ruleScope (segmentHead source first last letter) (segmentBody first last candidate line start place))
        binding) ↔
    ∃ low high, course.IsRun line origin low high ∧ fact = segment source low high letter := by
  have met (binding : Binding) : (∀ literal ∈ segmentBody first last candidate line start place,
      literal.Holds given [first, last, first, last] binding) ↔
        (∃ low, binding first = .num low ∧
          IsGreatest {number ∈ course.stops line line.before | number ≤ origin} low) ∧
        ∃ high, binding last = .num high ∧
          IsLeast {number ∈ course.stops line line.after | origin ≤ number} high := by
    rw [segmentBody, List.forall_mem_cons, List.forall_mem_singleton]
    have along := runs binding _ free
    exact and_congr (runEnd_holds draws along .greatest line.before (follows.stops_before_nonempty inside))
      (runEnd_holds draws along .least line.after (follows.stops_after_nonempty inside))
  have denotes (binding : Binding) : (segmentHead source first last letter).Denotes binding fact ↔
      fact = ⟨"loop_segment", [.num source.row.val, .num source.col.val, binding first, binding last, .str letter]⟩ :=
    Atom.denotes_iff (.cons (Term.stands_int _) (.cons (Term.stands_int _) (.cons (Term.stands_var first)
      (.cons (Term.stands_var last) (.cons (fun _ => Iff.rfl) .nil)))))
  constructor
  · intro derived
    obtain ⟨binding, denoted, holds⟩ := derived
    obtain ⟨⟨low, isLow, greatest⟩, high, isHigh, least⟩ := (met binding).mp holds
    refine ⟨low, high, follows.isRun_iff.mpr ⟨greatest, least⟩, ?_⟩
    rw [(denotes binding).mp denoted, isLow, isHigh]
    rfl
  · intro found
    obtain ⟨low, high, run, rfl⟩ := found
    obtain ⟨greatest, least⟩ := follows.isRun_iff.mp run
    let binding : Binding := fun name => if name = first then .num low else .num high
    have isLow : binding first = .num low := if_pos rfl
    have isHigh : binding last = .num high := if_neg apart
    refine ⟨binding, (denotes binding).mpr ?_, (met binding).mpr ⟨⟨low, isLow, greatest⟩, high, isHigh, least⟩⟩
    rw [isLow, isHigh]
    rfl

private theorem row_met {fact : Fact} (draws : given.Draws Relation.passes course)
    (follows : course.Follows (.ofRow source.row.val) cols) (inside : InGrid rows cols source.row.val source.col.val) :
    (∃ binding, (segmentHead source "C1" "C2" "H").Denotes binding fact ∧
      ∀ literal ∈ rowBody source, literal.Holds given
        (Program.ruleScope (segmentHead source "C1" "C2" "H") (rowBody source)) binding) ↔
    ∃ left right, course.IsRun (.ofRow source.row.val) source.col.val left right ∧
      fact = segment source left right "H" :=
  segment_met draws follows inside (fun _ _ free => .of_row free (fun _ _ => (Place.ofCell_stands source).2)
    fun _ _ => (Place.ofCell_stands source).1) (by decide) (by decide)

private theorem col_met {fact : Fact} (draws : given.Draws Relation.passes course)
    (follows : course.Follows (.ofCol source.col.val) rows) (inside : InGrid rows cols source.row.val source.col.val) :
    (∃ binding, (segmentHead source "R1" "R2" "V").Denotes binding fact ∧
      ∀ literal ∈ colBody source, literal.Holds given
        (Program.ruleScope (segmentHead source "R1" "R2" "V") (colBody source)) binding) ↔
    ∃ top bottom, course.IsRun (.ofCol source.col.val) source.row.val top bottom ∧
      fact = segment source top bottom "V" :=
  segment_met draws follows inside (fun _ _ free => .of_col free (fun _ _ => (Place.ofCell_stands source).1)
    fun _ _ => (Place.ofCell_stands source).2) (by decide) (by decide)

theorem flat_loopSegments : (loopSegments source).Flat := by
  intro head body statement literal member relation looked defines
  have isSegment : relation = "loop_segment" := by
    rcases defines with ⟨atom, statement, _⟩ | ⟨head, body, statement, rfl⟩
    · exact absurd statement fact_mem_loopSegments
    · rcases rule_mem_loopSegments.mp statement with ⟨rfl, _⟩ | ⟨rfl, _⟩ <;> rfl
  have isAsked : relation ∈ [Relation.grid, Relation.passes] := by
    rcases rule_mem_loopSegments.mp statement with ⟨_, rfl⟩ | ⟨_, rfl⟩ <;>
      rcases List.mem_pair.mp member with rfl | rfl <;>
        exact looked
  rw [isSegment] at isAsked
  exact absurd isAsked (by decide)

/-- What fires is either rule. -/
private theorem fires_loopSegments {fact : Fact} : (loopSegments source).Fires given fact ↔
    (∃ binding, (segmentHead source "C1" "C2" "H").Denotes binding fact ∧ ∀ literal ∈ rowBody source,
      literal.Holds given (Program.ruleScope (segmentHead source "C1" "C2" "H") (rowBody source)) binding) ∨
    ∃ binding, (segmentHead source "R1" "R2" "V").Denotes binding fact ∧ ∀ literal ∈ colBody source,
      literal.Holds given (Program.ruleScope (segmentHead source "R1" "R2" "V") (colBody source)) binding := by
  have unstated : ¬ ∃ atom, .fact atom ∈ (loopSegments source).statements ∧ ∃ binding, atom.Denotes binding fact :=
    fun stated => fact_mem_loopSegments stated.choose_spec.1
  rw [Program.Fires, or_iff_right unstated]
  simp only [rule_mem_loopSegments, or_and_right, and_assoc, exists_or, exists_and_left, exists_eq_left]

/-- For a cell of the grid, whatever the sides are that the loops pass, as long as each is answered behind it, the
rules derive just one fact for its row and one for its column. Each gives the ends of the run through the cell:
all cells between them are joined to the next one in both directions, and neither end to the cell beyond it. -/
theorem loopSegments_agree {rows cols : Nat} (course : Course rows cols) (given : World) (source : Cell)
    (draws : given.Draws Relation.passes course) (answered : ¬ sidesAnswered.Violated given)
    (inside : InGrid rows cols source.row.val source.col.val) :
    (∃! world, (loopSegments source).Model given world) ∧
    ∃ left right top bottom, course.IsRun (.ofRow source.row.val) source.col.val left right ∧
      course.IsRun (.ofCol source.col.val) source.row.val top bottom ∧
      ∀ world, (loopSegments source).Model given world → ∀ fact, world fact ↔
        given fact ∨ fact = segment source left right "H" ∨ fact = segment source top bottom "V" := by
  have comesBack := draws.answered_iff.mp answered
  have across : course.Follows (.ofRow source.row.val) cols := Course.follows_row comesBack inside.1
  have along : course.Follows (.ofCol source.col.val) rows := Course.follows_col comesBack inside.2
  obtain ⟨left, right, run⟩ := across.exists_run inside
  obtain ⟨top, bottom, run'⟩ := along.exists_run inside
  refine ⟨flat_loopSegments.existsUnique_model given, left, right, top, bottom, run, run', fun world model fact => ?_⟩
  rw [flat_loopSegments.model_iff model, fires_loopSegments, row_met draws across inside, col_met draws along inside]
  refine or_congr_right (or_congr ⟨?_, fun same => ⟨left, right, run, same⟩⟩
    ⟨?_, fun same => ⟨top, bottom, run', same⟩⟩)
  · rintro ⟨first, last, other, rfl⟩
    obtain ⟨rfl, rfl⟩ := across.run_unique run other
    rfl
  · rintro ⟨first, last, other, rfl⟩
    obtain ⟨rfl, rfl⟩ := along.run_unique run' other
    rfl

/-- The upper side of the loop around the middle, where the last column is apart from the loop. -/
theorem loopSegments_agree_ring : ∃ world,
    (loopSegments (.of 0 1)).Model (.ofCourse Relation.passes ringCourse) world ∧
      world (segment (.of 0 1) 0 2 "H") ∧ world (segment (.of 0 1) 0 0 "V") ∧ ¬ world (segment (.of 0 1) 0 3 "H") := by
  have draws : (World.ofCourse Relation.passes ringCourse).Draws Relation.passes ringCourse :=
    World.ofCourse_draws (by decide) ringCourse
  have answered : ¬ sidesAnswered.Violated (World.ofCourse Relation.passes ringCourse) :=
    answered_ofList (by decide)
  have comesBack := draws.answered_iff.mp answered
  have upper : ringCourse.IsRun (.ofRow 0) 1 0 2 := by
    refine ⟨by decide, fun number low high => ?_, fun number low high => ?_, by decide, by decide⟩
    · rcases (by omega : number = 0 ∨ number = 1 ∨ number = 2) with rfl | rfl | rfl <;> decide
    · rcases (by omega : number = 0 ∨ number = 1) with rfl | rfl <;> decide
  have single : ringCourse.IsRun (.ofCol 1) 0 0 0 := by
    refine ⟨by decide, fun number low high => ?_, fun number low high => ?_, by decide, by decide⟩
    · rw [show number = 0 by omega]
      decide
    · omega
  obtain ⟨⟨world, model, _⟩, left, right, top, bottom, across, along, each⟩ :=
    loopSegments_agree ringCourse (.ofCourse Relation.passes ringCourse) (.of 0 1) draws answered (by decide)
  obtain ⟨rfl, rfl⟩ := (Course.follows_row comesBack (by decide)).run_unique across upper
  obtain ⟨rfl, rfl⟩ := (Course.follows_col comesBack (by decide)).run_unique along single
  refine ⟨world, model, (each world model _).mpr (.inr (.inl rfl)), (each world model _).mpr (.inr (.inr rfl)),
    fun holds => ?_⟩
  rcases (each world model _).mp holds with given | same | same
  · rcases World.ofCourse_relation given with same | same <;> exact absurd same (by decide)
  · exact absurd same (by decide)
  · exact absurd same (by decide)

end Template

end GridPuzzle
