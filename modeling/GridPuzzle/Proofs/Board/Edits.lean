import GridPuzzle.Proofs.Adjacency
import GridPuzzle.Proofs.Board.Drawing

/-!
Edits of drafts. Each edit is taken apart into marks, of one cell or one wall each. What a run of marks leaves depends
only on which marks there are: where one of them is off the board the draft has that one fault, and otherwise it has
all of their cells and walls. So the order of the edits does not matter.
-/
namespace GridPuzzle

theorem Board.Bounded.exists_between {board : Board} {a : Cell} (bounded : board.Bounded)
    (inside : board.contains a = true) (b : Cell) : ∃ answer, Side.between a b = .ok answer :=
  Side.exists_firstTowards (fun side => bounded.exists_step inside (by cases side <;> decide)) Side.all

namespace Draft

variable {draft next : Draft} {cell a b : Cell}

theorem shade_of_faulty (faulty : draft.faults ≠ []) : draft.shade cell = draft := if_pos faulty

theorem wall_of_faulty (faulty : draft.faults ≠ []) : draft.wall a b = .ok draft := if_pos faulty

theorem wall_of_outside (sound : draft.faults = [])
    (outside : ¬ (draft.board.contains a = true ∧ draft.board.contains b = true)) :
    draft.wall a b = .ok (draft.fail .outOfBounds) := by
  rw [wall, if_neg (not_not.mpr sound), if_neg (mt Bool.and_eq_true_iff.mp outside)]
  rfl

theorem wall_eq_ok (sound : draft.faults = [])
    (inside : draft.board.contains a = true ∧ draft.board.contains b = true) :
    draft.wall a b = .ok next ↔ ∃ answer, Side.between a b = .ok answer ∧
      next = if answer.isSome then { draft with board := draft.board.addWall a b } else draft := by
  rw [wall, if_neg (not_not.mpr sound), if_pos (Bool.and_eq_true_iff.mpr inside), Outcome.bind_eq_ok]
  refine exists_congr fun answer => and_congr_right fun _ => ?_
  cases answer <;> exact Outcome.pure_eq_ok.trans eq_comm

end Draft

inductive Mark
  | shade (cell : Cell)
  | wall (a b : Cell)

namespace Mark

variable {mark : Mark} {marks : List Mark} {draft next final : Draft}

def apply (draft : Draft) : Mark → Except Error Draft
  | .shade cell => pure (draft.shade cell)
  | .wall a b => draft.wall a b

/-- All cells of the mark are on the board. -/
def Fits (board : Board) : Mark → Prop
  | .shade cell => board.contains cell = true
  | .wall a b => board.contains a = true ∧ board.contains b = true

def ShadesAt : Mark → Nat → Nat → Prop
  | .shade cell, row, col => cell.row.val = row ∧ cell.col.val = col
  | .wall _ _, _, _ => False

/-- The mark is a wall between two cells that share a side. -/
def Parts : Mark → Cell → Cell → Prop
  | .shade _, _, _ => False
  | .wall a b, a', b' => (a' = a ∧ b' = b) ∧ Adjacency.side.Near a b

/-- What a mark does to a draft. -/
inductive Effect (mark : Mark) (draft next : Draft) : Prop
  | ignored : draft.faults ≠ [] → next = draft → Effect mark draft next
  | refused : draft.faults = [] → ¬ mark.Fits draft.board → next = draft.fail .outOfBounds → Effect mark draft next
  | made : draft.faults = [] → mark.Fits draft.board → draft.Shades next mark.ShadesAt →
      (∀ a b, (a, b) ∈ next.board.walls ↔ (a, b) ∈ draft.board.walls ∨ mark.Parts a b) → Effect mark draft next

theorem effect_shade (draft : Draft) (cell : Cell) : Effect (.shade cell) draft (draft.shade cell) := by
  by_cases sound : draft.faults = []
  · rw [Draft.shade, if_neg (not_not.mpr sound)]
    split
    · rename_i row col place
      have inside : draft.board.contains cell = true := by simp [Board.contains, place]
      have bounds := Board.contains_iff.mp inside
      obtain ⟨rows, cols⟩ := Board.index?_eq_some.mp place
      refine .made sound inside ⟨⟨rfl, rfl⟩, rfl, fun r c => ?_⟩ fun _ _ => (or_iff_left id).symm
      rw [Board.shadedAt_shadeAt, ShadesAt]
      refine or_congr_right ?_
      omega
    · rename_i place
      exact .refused sound (by simp [Fits, Board.contains, place]) rfl
  · exact .ignored sound (Draft.shade_of_faulty sound)

theorem effect_wall {a b : Cell} (applied : draft.wall a b = .ok next) : Effect (.wall a b) draft next := by
  by_cases sound : draft.faults = []
  · by_cases inside : draft.board.contains a = true ∧ draft.board.contains b = true
    · obtain ⟨answer, found, rfl⟩ := (Draft.wall_eq_ok sound inside).mp applied
      have near := Side.near_of_between found
      by_cases some : answer.isSome = true
      · rw [if_pos some]
        refine .made sound inside ⟨⟨rfl, rfl⟩, rfl, fun row col => ?_⟩ fun c d => ?_
        · rw [ShadesAt, false_and, or_false]
          exact Iff.rfl
        · rw [Parts, and_iff_left (near.mp some)]
          simp [Board.addWall, or_comm]
      · rw [if_neg some]
        exact .made sound inside (Draft.Shades.refl draft) fun c d => (or_iff_left (some <| near.mpr ·.2)).symm
    · rw [Draft.wall_of_outside sound inside] at applied
      cases applied
      exact .refused sound inside rfl
  · rw [Draft.wall_of_faulty sound] at applied
    cases applied
    exact .ignored sound rfl

theorem effect (applied : mark.apply draft = .ok next) : mark.Effect draft next := by
  cases mark with
  | shade cell =>
    cases applied
    exact effect_shade draft cell
  | wall a b => exact effect_wall applied

theorem exists_apply (bounded : draft.board.Bounded) (mark : Mark) : ∃ next, mark.apply draft = .ok next := by
  cases mark with
  | shade cell => exact ⟨_, rfl⟩
  | wall a b =>
    by_cases sound : draft.faults = []
    · by_cases inside : draft.board.contains a = true ∧ draft.board.contains b = true
      · obtain ⟨answer, found⟩ := bounded.exists_between inside.1 b
        exact ⟨_, (Draft.wall_eq_ok sound inside).mpr ⟨answer, found, rfl⟩⟩
      · exact ⟨_, Draft.wall_of_outside sound inside⟩
    · exact ⟨_, Draft.wall_of_faulty sound⟩

theorem apply_of_faulty (faulty : draft.faults ≠ []) (mark : Mark) : mark.apply draft = .ok draft := by
  cases mark with
  | shade cell => exact congrArg Except.ok (Draft.shade_of_faulty faulty)
  | wall a b => exact Draft.wall_of_faulty faulty

theorem run_of_faulty (faulty : draft.faults ≠ []) : marks.foldlM apply draft = .ok draft := by
  have stays : ∀ mark ∈ marks, ∀ state, state = draft → ∃ next, apply state mark = .ok next ∧ next = draft := by
    rintro mark _ _ rfl
    exact ⟨_, apply_of_faulty faulty mark, rfl⟩
  obtain ⟨_, ran, rfl⟩ := Outcome.exists_foldlM_ok stays rfl
  exact ran

theorem Effect.size (effect : mark.Effect draft next) : next.board.SameSize draft.board := by
  cases effect with
  | ignored _ same => exact same ▸ ⟨rfl, rfl⟩
  | refused _ _ same => exact same ▸ ⟨rfl, rfl⟩
  | made _ _ shades _ => exact shades.size

theorem keeps_size {board : Board} (mark : Mark) (draft next : Draft) (same : draft.board.SameSize board)
    (applied : apply draft mark = .ok next) : next.board.SameSize board :=
  (effect applied).size.trans same

theorem fits_congr {board other : Board} (same : board.SameSize other) : mark.Fits board ↔ mark.Fits other := by
  cases mark <;> simp only [Fits, same.contains]

/-- A run of marks on a sound draft makes all of them, if they fit, and else it leaves one fault. -/
theorem made_or_refused (sound : draft.faults = []) (ran : marks.foldlM apply draft = .ok final) :
    ((∀ mark ∈ marks, mark.Fits draft.board) ∧
      draft.Shades final (fun row col => ∃ mark ∈ marks, mark.ShadesAt row col) ∧
      ∀ a b, (a, b) ∈ final.board.walls ↔ (a, b) ∈ draft.board.walls ∨ ∃ mark ∈ marks, mark.Parts a b) ∨
    (∃ mark ∈ marks, ¬ mark.Fits draft.board) ∧ final.faults = [.outOfBounds] := by
  induction marks generalizing draft with
  | nil =>
    cases ran
    exact .inl ⟨List.forall_mem_nil _, (Draft.Shades.refl _).congr fun _ _ => by simp, by simp⟩
  | cons mark rest ih =>
    rw [List.foldlM_cons, Outcome.bind_eq_ok] at ran
    obtain ⟨next, applied, ran⟩ := ran
    rw [List.forall_mem_cons, List.exists_mem_cons_iff]
    simp only [List.exists_mem_cons_iff]
    cases effect applied with
    | ignored faulty => exact absurd sound faulty
    | refused _ outside same =>
      -- whatever marks follow, the fault stays
      have fault : next.faults = [.outOfBounds] := by rw [same, Draft.fail, sound, List.nil_append]
      rw [run_of_faulty (by simp [fault])] at ran
      cases ran
      exact .inr ⟨.inl outside, fault⟩
    | made _ inside shades walls =>
      have size := shades.size
      rcases ih (shades.faults.trans sound) ran with ⟨fit, shades', walls'⟩ | ⟨unfit, faults⟩
      · refine .inl ⟨⟨inside, fun other member => (fits_congr size).mp (fit other member)⟩, shades.trans shades', ?_⟩
        intro a b
        rw [walls', walls, or_assoc]
      · obtain ⟨other, member, outside⟩ := unfit
        exact .inr ⟨.inr ⟨other, member, mt (fits_congr size).mpr outside⟩, faults⟩

end Mark

/-- One operation on a draft. -/
inductive Edit
  | shade (cell : Cell)
  | shadeAll (cells : List Cell)
  | wall (a b : Cell)
  | wallAround (cell : Cell) (sides : List Side)

namespace Edit

variable {edit : Edit} {edits edits' : List Edit} {draft next start final final' : Draft} {board : Board}

def apply (draft : Draft) : Edit → Except Error Draft
  | .shade cell => pure (draft.shade cell)
  | .shadeAll cells => pure (draft.shadeAll cells)
  | .wall a b => draft.wall a b
  | .wallAround cell sides => draft.wallAround cell sides

/-- There are cells behind the sides that are walled off, be they on the board or not. -/
def Steps : Edit → Prop
  | .wallAround cell sides => ∀ side ∈ sides, ∃ next, side.neighbor cell = .ok next
  | .shade _ | .shadeAll _ | .wall _ _ => True

/-- The wall behind a side, unless that side is the border of the board. -/
def sideMarks (board : Board) (cell : Cell) (side : Side) : List Mark :=
  match side.neighbor cell with
  | .ok next => if board.contains next then [.wall cell next] else []
  | .error _ => []

/-- The marks that an edit makes on boards of one size. -/
def marks (board : Board) : Edit → List Mark
  | .shade cell => [.shade cell]
  | .shadeAll cells => cells.map .shade
  | .wall a b => [.wall a b]
  | .wallAround cell sides => sides.flatMap (sideMarks board cell)

theorem wallAround_eq {cell : Cell} {sides : List Side} (steps : (wallAround cell sides).Steps)
    (same : draft.board.SameSize board) :
    draft.wallAround cell sides = (sides.flatMap (sideMarks board cell)).foldlM Mark.apply draft := by
  refine Outcome.foldlM_eq_flatMap Mark.keeps_size (fun side member state same => ?_) same
  obtain ⟨next, stepped⟩ := steps side member
  rw [Outcome.bind_of_ok stepped, sideMarks, stepped]
  dsimp only
  rw [same.contains]
  split
  · exact (bind_pure _).symm
  · rfl

theorem apply_eq (steps : edit.Steps) (same : draft.board.SameSize board) :
    edit.apply draft = (edit.marks board).foldlM Mark.apply draft := by
  cases edit with
  | shade cell => rfl
  | shadeAll cells =>
    rw [marks, List.foldlM_map]
    exact (List.foldlM_pure ..).symm
  | wall a b => exact (bind_pure _).symm
  | wallAround cell sides => exact wallAround_eq steps same

/-- A run of edits is one of marks. -/
theorem foldlM_apply_eq (steps : ∀ edit ∈ edits, edit.Steps) :
    edits.foldlM apply start = (edits.flatMap (marks start.board)).foldlM Mark.apply start := by
  refine Outcome.foldlM_eq_flatMap Mark.keeps_size (fun edit member state same => ?_) ⟨rfl, rfl⟩
  exact apply_eq (steps edit member) same

end Edit

namespace Draft

def run (start : Draft) (edits : List Edit) : Except Error Draft := edits.foldlM Edit.apply start

variable {edits edits' later : List Edit} {draft next start final final' : Draft}

/-- At most one fault is told, and walls stand only between cells on the board that share a side. -/
structure Tidy (draft : Draft) : Prop where
  faults : draft.faults.length ≤ 1
  walls : ∀ a b, (a, b) ∈ draft.board.walls →
    (draft.board.contains a = true ∧ draft.board.contains b = true) ∧ Adjacency.side.Near a b

/-- Drafts without edits: a blank one, or one that is read from rows. -/
inductive Fresh : Draft → Prop
  | blank (rows cols : Nat) (positive : 0 < rows ∧ 0 < cols) : Fresh (.blank rows cols positive)
  | ofRows (rows : List String) : Fresh (.ofRows rows)

theorem Fresh.tidy (fresh : start.Fresh) : start.Tidy := by
  cases fresh with
  | blank rows cols positive => exact ⟨by simp [Draft.blank], fun _ _ member => nomatch member⟩
  | ofRows rows =>
    refine ⟨?_, fun a b member => absurd (walls_ofRows rows ▸ member) List.not_mem_nil⟩
    rcases drawing_or_fault rows with drawing | ⟨fault, met⟩
    · obtain ⟨board, _, _, built⟩ := exists_drawnBy drawing
      simp [(build_eq_ok.mp built).1]
    · simp [faults_of_firstFault met]

theorem Tidy.step {mark : Mark} (tidy : draft.Tidy) (applied : mark.apply draft = .ok next) : next.Tidy := by
  cases Mark.effect applied with
  | ignored _ same => exact same ▸ tidy
  | refused sound _ same =>
    subst same
    exact ⟨by simp [fail, sound], tidy.walls⟩
  | made sound fits shades walls =>
    refine ⟨shades.faults ▸ tidy.faults, fun a b member => ?_⟩
    rw [shades.size.contains, shades.size.contains]
    rcases (walls a b).mp member with before | parts
    · exact tidy.walls a b before
    · cases mark with
      | shade cell => cases parts
      | wall c d =>
        obtain ⟨⟨rfl, rfl⟩, near⟩ := parts
        exact ⟨fits, near⟩

theorem Tidy.run (tidy : start.Tidy) (steps : ∀ edit ∈ edits, edit.Steps)
    (ran : start.run edits = .ok final) : final.Tidy := by
  rw [Draft.run, Edit.foldlM_apply_eq steps] at ran
  exact Outcome.foldlM_preserves (fun _ _ _ _ => Tidy.step) tidy ran

theorem exists_run (bounded : start.board.Bounded) (steps : ∀ edit ∈ edits, edit.Steps) :
    ∃ final, start.run edits = .ok final := by
  have each : ∀ mark ∈ edits.flatMap (Edit.marks start.board), ∀ draft : Draft, draft.board.SameSize start.board →
      ∃ next, mark.apply draft = .ok next ∧ next.board.SameSize start.board := by
    intro mark _ draft same
    obtain ⟨next, applied⟩ := Mark.exists_apply (same.bounded bounded) mark
    exact ⟨next, applied, mark.keeps_size draft next same applied⟩
  obtain ⟨final, ran, _⟩ := Outcome.exists_foldlM_ok each ⟨rfl, rfl⟩
  exact ⟨final, (Edit.foldlM_apply_eq steps).trans ran⟩

theorem run_of_faulty (faulty : draft.faults ≠ []) (steps : ∀ edit ∈ edits, edit.Steps) :
    draft.run edits = .ok draft := by
  rw [run, Edit.foldlM_apply_eq steps]
  exact Mark.run_of_faulty faulty

/-- Two drafts that are built alike: either both are refused with the same faults, or their boards differ in no more
than the order and the number of their walls. -/
def BuiltAlike (draft draft' : Draft) : Prop :=
  (∃ faults, draft.build = .error faults ∧ draft'.build = .error faults) ∨
    ∃ board board', draft.build = .ok board ∧ draft'.build = .ok board' ∧
      { board with walls := [] } = { board' with walls := [] } ∧ ∀ a b, board.isWalled a b = board'.isWalled a b

/-- Marks of which one does not fit leave the same fault in each order, and those that fit the same board. -/
theorem builtAlike_of_perm {marks marks' : List Mark} (permuted : marks.Perm marks')
    (ran : marks.foldlM Mark.apply start = .ok final) (ran' : marks'.foldlM Mark.apply start = .ok final') :
    final.BuiltAlike final' := by
  by_cases sound : start.faults = []
  · rcases Mark.made_or_refused sound ran with ⟨fit, shades, walls⟩ | ⟨⟨mark, member, outside⟩, faults⟩
    · rcases Mark.made_or_refused sound ran' with ⟨_, shades', walls'⟩ | ⟨⟨mark, member, outside⟩, _⟩
      · refine .inr ⟨final.board, final'.board, build_eq_ok.mpr ⟨shades.faults.trans sound, rfl⟩,
          build_eq_ok.mpr ⟨shades'.faults.trans sound, rfl⟩, ?_, fun a b => ?_⟩
        · refine Board.ext_of_shadedAt (shades.size.1.trans shades'.size.1.symm)
            (shades.size.2.trans shades'.size.2.symm) (fun row col => ?_) rfl
          refine (shades.shadedAt row col).trans (Iff.trans ?_ (shades'.shadedAt row col).symm)
          simp only [permuted.mem_iff]
        · refine decide_eq_decide.mpr ?_
          simp only [walls, walls', permuted.mem_iff]
      · exact absurd (fit mark (permuted.mem_iff.mpr member)) outside
    · rcases Mark.made_or_refused sound ran' with ⟨fit, _, _⟩ | ⟨_, faults'⟩
      · exact absurd (fit mark (permuted.mem_iff.mp member)) outside
      · exact .inl ⟨_, build_eq_error.mpr ⟨by simp [faults], faults⟩, build_eq_error.mpr ⟨by simp [faults'], faults'⟩⟩
  · rw [Mark.run_of_faulty sound] at ran ran'
    cases ran
    cases ran'
    exact .inl ⟨_, build_eq_error.mpr ⟨sound, rfl⟩, build_eq_error.mpr ⟨sound, rfl⟩⟩

/-- A run of edits tells at most one fault and changes nothing after it, and walls stand only between cells on the
board that share a side. Runs of the same edits in different orders are built alike. On boards whose cells all have
neighbors each run comes to an end. -/
theorem run_order_free (fresh : start.Fresh) (steps : ∀ edit ∈ edits, edit.Steps) :
    (start.board.Bounded → ∃ final, start.run edits = .ok final) ∧
      ∀ final, start.run edits = .ok final →
        final.faults.length ≤ 1 ∧
        (final.faults ≠ [] → ∀ later : List Edit, (∀ edit ∈ later, edit.Steps) → final.run later = .ok final) ∧
        (∀ a b, (a, b) ∈ final.board.walls →
          (final.board.contains a = true ∧ final.board.contains b = true) ∧ Adjacency.side.Near a b) ∧
        ∀ edits' final', edits.Perm edits' → start.run edits' = .ok final' → final.BuiltAlike final' := by
  refine ⟨fun bounded => exists_run bounded steps, fun final ran => ?_⟩
  have tidy := fresh.tidy.run steps ran
  refine ⟨tidy.faults, fun faulty later steps => run_of_faulty faulty steps, tidy.walls, ?_⟩
  intro edits' final' permuted ran'
  have steps' : ∀ edit ∈ edits', edit.Steps := fun edit member => steps edit (permuted.mem_iff.mpr member)
  -- the marks of an edit depend on the size of the board alone, so permuted edits have permuted marks
  rw [run, Edit.foldlM_apply_eq steps] at ran
  rw [run, Edit.foldlM_apply_eq steps'] at ran'
  exact builtAlike_of_perm (permuted.flatMap_right _) ran ran'

/-- Edits around a corner of a small board, the last of them off the board. -/
def cornerEdits : List Edit :=
  [.wallAround (.of 0 0) Side.all, .shadeAll [.of 0 0, .of 1 1], .wall (.of 0 0) (.of 1 1), .shade (.of 2 0)]

theorem run_order_free_corner : (∀ edit ∈ cornerEdits, edit.Steps) ∧
    ∃ final final', (blank 2 2 (by decide)).run cornerEdits = .ok final ∧
      (blank 2 2 (by decide)).run cornerEdits.reverse = .ok final' ∧ final.BuiltAlike final' ∧
      (final.faults, final.board.shadedCells) = ([.outOfBounds], [.of 0 0, .of 1 1]) ∧
      (final'.faults, final'.board.shadedCells) = ([.outOfBounds], []) := by
  have bounded : (blank 2 2 (by decide)).board.Bounded := ⟨by decide, by decide⟩
  have inside : (blank 2 2 (by decide)).board.contains (.of 0 0) = true := by decide
  have steps : ∀ edit ∈ cornerEdits, edit.Steps := by
    simp only [cornerEdits, List.forall_mem_cons, Edit.Steps]
    exact ⟨fun side _ => bounded.exists_step inside (by cases side <;> decide), by simp⟩
  have steps' : ∀ edit ∈ cornerEdits.reverse, edit.Steps := fun edit member => steps edit (List.mem_reverse.mp member)
  obtain ⟨final, ran⟩ := (run_order_free (.blank 2 2 (by decide)) steps).1 bounded
  obtain ⟨final', ran'⟩ := (run_order_free (.blank 2 2 (by decide)) steps').1 bounded
  have alike := ((run_order_free (.blank 2 2 (by decide)) steps).2 final ran).2.2.2 _ final'
    cornerEdits.reverse_perm.symm ran'
  have left : ((blank 2 2 (by decide)).run cornerEdits).map (fun draft => (draft.faults, draft.board.shadedCells)) =
      .ok ([.outOfBounds], [.of 0 0, .of 1 1]) := rfl
  have left' : ((blank 2 2 (by decide)).run cornerEdits.reverse).map
      (fun draft => (draft.faults, draft.board.shadedCells)) = .ok ([.outOfBounds], []) := rfl
  rw [ran] at left
  rw [ran'] at left'
  exact ⟨steps, final, final', ran, ran', alike, Except.ok.inj left, Except.ok.inj left'⟩

end Draft

end GridPuzzle
