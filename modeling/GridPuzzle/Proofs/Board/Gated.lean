import GridPuzzle.Proofs.Board.Placement
import GridPuzzle.Proofs.Board.Rays

/-!
Searches under a kind that the course of a path gates. A board has no paths, so it cannot compare two of its
cells under such a kind. A search is refused if it comes to such a comparison, and which cells it compares
depends on the shading: the kind itself is not looked at before.
-/
namespace GridPuzzle

namespace Adjacency

theorem near_of_not_fixed {kind : Adjacency} (gated : ¬ kind.Fixed) (a b : Cell) :
    kind.Near a b ↔ Adjacency.side.Near a b := by
  cases kind with
  | side | corner | around | walled => exact absurd ⟨nofun, nofun⟩ gated
  | path | directedPath => exact Iff.rfl

/-- The cells around a cell are those that share a side or a corner with it. -/
theorem around_near_iff {a b : Cell} : Adjacency.around.Near a b ↔
    ∃ offset ∈ Cell.surroundings, a.shift offset = .ok b := by
  refine ⟨Board.mem_surroundings_of_close, ?_⟩
  rintro ⟨offset, member, stepped⟩
  have small := Board.small_of_mem_surroundings offset member
  have still : ∀ offset ∈ Cell.surroundings, ¬ (offset.row.val = 0 ∧ offset.col.val = 0) := by decide
  have moves := still offset member
  have moved := Cell.shift_eq_ok.mp stepped
  simp only [Near]
  omega

end Adjacency

namespace Board

variable {board : Board} {kind : Adjacency} {cell source root : Cell} {loose : Bool} {shape : Polyomino}

/-- The search is refused as the kind is not supported, under a condition, and has this result otherwise. -/
abbrev UnsupportedWhen {α : Type} (kind : Adjacency) (condition : Prop) (outcome : Except Error α) (value : α) : Prop :=
  Outcome.RefusedWhen (.unsupportedAdjacency kind.name) condition outcome value

theorem adjacent_of_not_fixed (gated : ¬ kind.Fixed) {a b : Cell} (inside : board.contains a = true)
    (inside' : board.contains b = true) : board.adjacent a b kind = .error (.unsupportedAdjacency kind.name) := by
  unfold adjacent
  rw [if_pos (Bool.and_eq_true_iff.mpr ⟨inside, inside'⟩)]
  cases kind with
  | side | corner | around | walled => exact absurd ⟨nofun, nofun⟩ gated
  | path | directedPath => rfl

/-- Two of the shaded cells share a side or a corner. -/
def Clustered (board : Board) : Prop :=
  ∃ a ∈ board.shadedCells, ∃ b ∈ board.shadedCells, Adjacency.around.Near a b

instance (board : Board) : Decidable board.Clustered :=
  inferInstanceAs (Decidable (∃ a ∈ board.shadedCells, ∃ b ∈ board.shadedCells, _))

private theorem linksAlong_unsupported (bounded : board.Bounded) (gated : ¬ kind.Fixed)
    (inside : board.contains cell = true) (offsets : List Cell) (around : offsets ⊆ Cell.surroundings) :
    UnsupportedWhen kind
      (∃ offset ∈ offsets, ∃ next, cell.shift offset = .ok next ∧ board.isShaded next = true)
      (board.linksAlong kind cell offsets) [] := by
  induction offsets with
  | nil => exact .of_ok (by simp) []
  | cons offset rest ih =>
    have others := ih fun _ member => around (List.mem_cons_of_mem _ member)
    obtain ⟨target, stepped⟩ := bounded.exists_step inside (around List.mem_cons_self)
    rw [linksAlong, Outcome.bind_of_ok stepped]
    -- both cells are on the board, so that the first shaded neighbor ends the search
    by_cases shaded : board.isShaded target = true
    · rw [if_pos shaded, adjacent_of_not_fixed gated inside (contains_of_isShaded shaded)]
      exact .of_error ⟨offset, List.mem_cons_self, target, stepped, shaded⟩ []
    · rw [if_neg shaded]
      refine (others.map id).congr ?_
      simp [stepped, shaded]

theorem graph_unsupported (bounded : board.Bounded) (gated : ¬ kind.Fixed) :
    UnsupportedWhen kind board.Clustered (board.graph kind) (board.shadedCells.map (·, [])) := by
  have nodes := Outcome.RefusedWhen.mapM board.shadedCells fun cell member =>
    (linksAlong_unsupported bounded gated (contains_of_isShaded (mem_shadedCells.mp member)) _
      (List.Subset.refl Cell.surroundings)).map (cell, ·)
  refine nodes.congr (exists_congr fun cell => and_congr_right fun _ => ?_)
  simp only [Adjacency.around_near_iff, mem_shadedCells]
  constructor
  · rintro ⟨next, shaded, offset, member, stepped⟩
    exact ⟨offset, member, next, stepped, shaded⟩
  · rintro ⟨offset, member, next, stepped, shaded⟩
    exact ⟨next, shaded, offset, member, stepped⟩

private theorem links_isolated (cells : List Cell) (cell : Cell) : links (cells.map (·, [])) cell = [] := by
  unfold links
  induction cells with
  | nil => rfl
  | cons first rest ih =>
    rw [List.map_cons, List.lookup_cons]
    cases cell == first with
    | true => rfl
    | false => exact ih

private theorem joinedTo_isolated (cells : List Cell) (source : Cell) :
    joinedTo (cells.map (·, [])) [source] = if source ∈ cells then [source] else [] := by
  have stays {a b : Cell} (reaches : Flood.Reaches (links (cells.map (·, []))) a b) : b = a := by
    cases reaches with
    | start => rfl
    | step _ linked => rw [links_isolated] at linked; cases linked
  have mem_iff (cell : Cell) : cell ∈ joinedTo (cells.map (·, [])) [source] ↔ source ∈ cells ∧ cell = source := by
    rw [joinedTo, Cell.mem_sort, Flood.mem_gather fun _ _ next linked => by rw [links_isolated] at linked; cases linked]
    simp only [List.mem_singleton, exists_eq_left, List.map_map, Function.comp_def, List.map_id']
    refine and_congr_right fun _ => ⟨stays, ?_⟩
    rintro rfl
    exact .start
  by_cases member : source ∈ cells
  · rw [if_pos member]
    refine (Cell.sort_increasing _).eq (List.pairwise_singleton _ source) fun cell => ?_
    rw [List.mem_singleton]
    exact (mem_iff cell).trans (and_iff_right member)
  · rw [if_neg member]
    exact List.eq_nil_iff_forall_not_mem.mpr fun cell found => member ((mem_iff cell).mp found).1

theorem reachable_unsupported (bounded : board.Bounded) (gated : ¬ kind.Fixed) (source : Cell) :
    UnsupportedWhen kind board.Clustered (board.reachable source kind)
      (if board.isShaded source then [source] else []) := by
  have search := (graph_unsupported bounded gated).map (joinedTo · [source])
  rw [joinedTo_isolated] at search
  simp only [mem_shadedCells] at search
  exact search

private theorem groups_isolated {cells : List Cell} (distinct : cells.Nodup) :
    (Flood.groups (links (cells.map (·, []))) ((cells.map (·, ([] : List Cell))).map Prod.fst)).map Cell.sort =
      cells.map ([·]) := by
  have nodes : (cells.map (·, ([] : List Cell))).map Prod.fst = cells := by simp [Function.comp_def]
  rw [nodes, Flood.groups_of_isolated (fun cell _ => links_isolated cells cell) distinct, List.map_map]
  rfl

theorem components_unsupported (bounded : board.Bounded) (gated : ¬ kind.Fixed) :
    UnsupportedWhen kind board.Clustered (board.components kind) (board.shadedCells.map ([·])) := by
  rw [← groups_isolated (shadedCells_increasing board).nodup]
  exact (graph_unsupported bounded gated).map fun graph =>
    (Flood.groups (links graph) (graph.map Prod.fst)).map Cell.sort

theorem isConnected_unsupported (bounded : board.Bounded) (gated : ¬ kind.Fixed) :
    UnsupportedWhen kind board.Clustered (board.isConnected kind) (decide (board.shadedCells.length ≤ 1)) := by
  have search := (components_unsupported bounded gated).map fun groups => decide (groups.length ≤ 1)
  rwa [List.length_map] at search

private theorem ray_unsupported (bounded : board.Bounded) (gated : ¬ kind.Fixed) (side : Side)
    (inside : board.contains cell = true) (steps : Nat) :
    UnsupportedWhen kind (∃ next, side.neighbor cell = .ok next ∧ board.isShaded next = true)
      (board.ray kind side (steps + 1) cell) [] := by
  obtain ⟨next, stepped⟩ := bounded.exists_step inside (offset_mem_surroundings side)
  rw [ray, Outcome.bind_of_ok (show side.neighbor cell = .ok next from stepped)]
  by_cases shaded : board.isShaded next = true
  · rw [if_pos shaded, adjacent_of_not_fixed gated inside (contains_of_isShaded shaded)]
    exact .of_error ⟨next, stepped, shaded⟩ []
  · rw [if_neg shaded]
    refine .of_ok ?_ []
    rintro ⟨other, steppedTo, shadedTo⟩
    cases stepped.symm.trans steppedTo
    exact shaded shadedTo

theorem bulb_unsupported (bounded : board.Bounded) (gated : ¬ kind.Fixed) (source : Cell) :
    UnsupportedWhen kind
      (board.isShaded source = true ∧ ∃ next ∈ board.shadedCells, Adjacency.side.Near source next)
      (board.bulb source kind) (if board.isShaded source then [source] else []) := by
  unfold bulb
  by_cases shaded : board.isShaded source = true
  · obtain ⟨steps, enough⟩ : ∃ steps, board.rows + board.cols = steps + 1 :=
      Nat.exists_eq_add_one_of_ne_zero (by have := board.positive; omega)
    rw [if_pos shaded, if_pos shaded, enough]
    -- no ray takes a second step: after the first it is refused, or it ends
    have rays := Outcome.RefusedWhen.mapM Side.all fun side _ =>
      ray_unsupported bounded gated side (contains_of_isShaded shaded) steps
    refine (rays.map fun rays => Cell.sort (source :: rays.flatten)).congr ?_
    simp only [shaded, true_and, Side.mem_all, mem_shadedCells]
    constructor
    · rintro ⟨next, shaded, near⟩
      obtain ⟨side, stepped⟩ := exists_neighbor near
      exact ⟨side, next, stepped, shaded⟩
    · rintro ⟨side, next, stepped, shaded⟩
      exact ⟨next, shaded, near_side_of_neighbor stepped⟩
  · rw [if_neg shaded, if_neg shaded]
    exact .of_ok (fun holds => shaded holds.1) []

/-- The cells of a shape placed at a root, as far as they have places. -/
def placed (root : Cell) (shape : Polyomino) : List Cell :=
  shape.cells.filterMap fun cell => (root.shift cell).toOption

/-- The search for a shape at a root comes to compare two cells: the shape lies on shaded cells, and two of them
share a side, or it is not loose and there is another shaded cell around. -/
def Compares (board : Board) (loose : Bool) (root : Cell) (shape : Polyomino) : Prop :=
  (placed root shape).all board.isShaded = true ∧
    ((∃ a ∈ placed root shape, ∃ b ∈ placed root shape, Adjacency.side.Near a b) ∨
      loose = false ∧ ∃ a ∈ placed root shape, ∃ b ∈ board.shadedCells,
        b ∉ placed root shape ∧ Adjacency.around.Near a b)

instance (board : Board) (loose : Bool) (root : Cell) (shape : Polyomino) :
    Decidable (board.Compares loose root shape) := inferInstanceAs (Decidable (_ ∧ _))

/-- The roots and shapes for which all cells of the shape lie on shaded cells. -/
def placements (board : Board) (shapes : List Polyomino) : List (Cell × Nat) :=
  board.locations.flatMap fun root =>
    (shapes.zipIdx.filter fun entry => (placed root entry.1).all board.isShaded).map fun entry => (root, entry.2)

private theorem holdTogether_unsupported (gated : ¬ kind.Fixed) {pairs : List (Cell × Cell)}
    (touching : ∀ pair ∈ pairs, ∃ answer, kind.touches pair.1 pair.2 = .ok answer)
    (inside : ∀ pair ∈ pairs, board.contains pair.1 = true ∧ board.contains pair.2 = true) :
    UnsupportedWhen kind (∃ pair ∈ pairs, kind.Near pair.1 pair.2) (board.holdTogether kind pairs) true := by
  induction pairs with
  | nil => exact .of_ok (by simp) true
  | cons pair rest ih =>
    obtain ⟨a, b⟩ := pair
    have others := ih (fun other member => touching other (List.mem_cons_of_mem _ member))
      fun other member => inside other (List.mem_cons_of_mem _ member)
    obtain ⟨touches, decided⟩ := touching (a, b) List.mem_cons_self
    obtain ⟨inA, inB⟩ := inside (a, b) List.mem_cons_self
    have near_iff : _ ↔ kind.Near a b := Adjacency.near_of_touches decided
    rw [holdTogether, Outcome.bind_of_ok decided]
    cases touches with
    | true =>
      rw [if_pos rfl, adjacent_of_not_fixed gated inA inB]
      exact .of_error ⟨(a, b), List.mem_cons_self, near_iff.mp rfl⟩ true
    | false =>
      have far : ¬ kind.Near a b := fun near => Bool.noConfusion (near_iff.mpr near)
      refine others.congr ?_
      simp [far]

private theorem isTouched_unsupported (bounded : board.Bounded) (gated : ¬ kind.Fixed) (cells : List Cell)
    (steps : List (Cell × Cell))
    (inside : ∀ step ∈ steps, board.contains step.1 = true ∧ step.2 ∈ Cell.surroundings) :
    UnsupportedWhen kind
      (∃ step ∈ steps, ∃ next, step.1.shift step.2 = .ok next ∧ next ∉ cells ∧ board.isShaded next = true)
      (board.isTouched kind cells steps) false := by
  induction steps with
  | nil => exact .of_ok (by simp) false
  | cons step rest ih =>
    obtain ⟨cell, offset⟩ := step
    have others := ih fun other member => inside other (List.mem_cons_of_mem _ member)
    obtain ⟨inCell, around⟩ := inside (cell, offset) List.mem_cons_self
    obtain ⟨next, stepped⟩ := bounded.exists_step inCell around
    rw [isTouched, Outcome.bind_of_ok stepped]
    by_cases outside : next ∉ cells ∧ board.isShaded next = true
    · rw [if_pos outside, adjacent_of_not_fixed gated inCell (contains_of_isShaded outside.2)]
      exact .of_error ⟨(cell, offset), List.mem_cons_self, next, stepped, outside⟩ false
    · rw [if_neg outside]
      refine others.congr ?_
      simp only [List.exists_mem_cons_iff, stepped, Except.ok.injEq, exists_eq_left', outside, false_or]

private theorem placed_shares_iff (root : Cell) (shape : Polyomino) (gated : ¬ kind.Fixed) :
    (∃ pair ∈ Cell.pairs (placed root shape), kind.Near pair.1 pair.2) ↔
      ∃ a ∈ placed root shape, ∃ b ∈ placed root shape, Adjacency.side.Near a b := by
  simp only [Adjacency.near_of_not_fixed gated]
  constructor
  · rintro ⟨pair, member, near⟩
    obtain ⟨first, second⟩ := Cell.mem_of_mem_pairs member
    exact ⟨pair.1, first, pair.2, second, near⟩
  · rintro ⟨a, inA, b, inB, near⟩
    have different : a ≠ b := by
      rintro rfl
      simp [Adjacency.Near] at near
    rcases Cell.mem_pairs_or inA inB different with member | member
    · exact ⟨(a, b), member, near⟩
    · exact ⟨(b, a), member, near.symm⟩

private theorem placed_touched_iff (board : Board) (cells : List Cell) :
    (∃ step ∈ Cell.steps cells, ∃ next, step.1.shift step.2 = .ok next ∧ next ∉ cells ∧
        board.isShaded next = true) ↔
      ∃ a ∈ cells, ∃ b ∈ board.shadedCells, b ∉ cells ∧ Adjacency.around.Near a b := by
  simp only [Adjacency.around_near_iff, mem_shadedCells]
  constructor
  · rintro ⟨⟨cell, offset⟩, member, next, stepped, outside, shaded⟩
    obtain ⟨own, around⟩ := Cell.mem_steps.mp member
    exact ⟨cell, own, next, shaded, outside, offset, around, stepped⟩
  · rintro ⟨cell, own, next, shaded, outside, offset, around, stepped⟩
    exact ⟨(cell, offset), Cell.mem_steps.mpr ⟨own, around⟩, next, stepped, outside, shaded⟩

private theorem alone_unsupported (bounded : board.Bounded) (gated : ¬ kind.Fixed) (loose : Bool) {cells : List Cell}
    (inside : ∀ cell ∈ cells, board.contains cell = true) :
    UnsupportedWhen kind
      (loose = false ∧ ∃ a ∈ cells, ∃ b ∈ board.shadedCells, b ∉ cells ∧ Adjacency.around.Near a b)
      (if loose then pure true else board.isTouched kind cells (Cell.steps cells) >>= fun touched => pure (!touched))
      true := by
  cases loose with
  | true => exact .of_ok (fun strict => Bool.noConfusion strict.1) true
  | false =>
    have touched := isTouched_unsupported bounded gated cells (Cell.steps cells) fun step member =>
      ⟨inside _ (Cell.mem_steps.mp member).1, (Cell.mem_steps.mp member).2⟩
    rw [placed_touched_iff] at touched
    exact (touched.map (!·)).congr (and_iff_right rfl)

theorem occursAt_unsupported (bounded : board.Bounded) (gated : ¬ kind.Fixed) (loose : Bool)
    (onBoard : board.contains root = true) (placeable : board.Placeable kind shape) :
    UnsupportedWhen kind (board.Compares loose root shape) (board.occursAt kind loose root shape)
      ((placed root shape).all board.isShaded) := by
  have built := Outcome.mapM_eq_filterMap (placeable.placed root onBoard)
  change shape.cells.mapM root.shift = .ok (placed root shape) at built
  rw [occursAt, Outcome.bind_of_ok built]
  by_cases shaded : (placed root shape).all board.isShaded = true
  · have inside : ∀ place ∈ placed root shape, board.contains place = true := fun place member =>
      contains_of_isShaded (List.all_eq_true.mp shaded place member)
    have touching : ∀ pair ∈ Cell.pairs (placed root shape), ∃ answer, kind.touches pair.1 pair.2 = .ok answer := by
      intro pair member
      obtain ⟨own, inOwn, first, second⟩ :=
        Outcome.mem_of_forall₂ (Cell.forall₂_pairs (Outcome.mapM_eq_ok.mp built)) member
      rw [Cell.touches_shift kind first second]
      exact placeable.distances own inOwn
    have held := holdTogether_unsupported gated touching fun pair member =>
      ⟨inside _ (Cell.mem_of_mem_pairs member).1, inside _ (Cell.mem_of_mem_pairs member).2⟩
    rw [placed_shares_iff root shape gated] at held
    rw [if_pos shaded, shaded]
    exact (held.bind fun _ => alone_unsupported bounded gated loose inside).congr (and_iff_right shaded)
  · rw [if_neg shaded, Bool.eq_false_iff.mpr shaded]
    exact .of_ok (fun compares => shaded compares.1) false

private theorem occurringAt_unsupported (bounded : board.Bounded) (gated : ¬ kind.Fixed) (loose : Bool)
    (onBoard : board.contains root = true) {shapes : List (Polyomino × Nat)}
    (placeable : ∀ entry ∈ shapes, board.Placeable kind entry.1) :
    UnsupportedWhen kind (∃ entry ∈ shapes, board.Compares loose root entry.1)
      (board.occurringAt kind loose root shapes)
      ((shapes.filter fun entry => (placed root entry.1).all board.isShaded).map Prod.snd) := by
  induction shapes with
  | nil => exact .of_ok (by simp) []
  | cons entry rest ih =>
    obtain ⟨shape, number⟩ := entry
    have others := ih fun other member => placeable other (List.mem_cons_of_mem _ member)
    have here := occursAt_unsupported bounded gated loose onBoard (placeable (shape, number) List.mem_cons_self)
    rw [occurringAt, List.exists_mem_cons_iff]
    refine here.bind fun _ => ?_
    have both := others.map fun others => if (placed root shape).all board.isShaded then number :: others else others
    rw [List.filter_cons]
    by_cases shaded : (placed root shape).all board.isShaded = true
    · simp only [shaded, if_true] at both ⊢
      exact both
    · simp only [shaded] at both ⊢
      exact both

theorem occurrences_unsupported (bounded : board.Bounded) (gated : ¬ kind.Fixed) (loose : Bool)
    {shapes : List Polyomino} (placeable : ∀ shape ∈ shapes, board.Placeable kind shape) :
    UnsupportedWhen kind (∃ root ∈ board.locations, ∃ shape ∈ shapes, board.Compares loose root shape)
      (board.occurrences shapes kind loose) (board.placements shapes) := by
  have each : ∀ entry ∈ shapes.zipIdx, board.Placeable kind entry.1 := fun entry member =>
    placeable _ (List.fst_mem_of_mem_zipIdx member)
  have roots := Outcome.RefusedWhen.mapM board.locations fun root member =>
    (occurringAt_unsupported bounded gated loose (mem_locations.mp member) each).map fun indices =>
      indices.map (root, ·)
  have some_iff (root : Cell) : (∃ entry ∈ shapes.zipIdx, board.Compares loose root entry.1) ↔
      ∃ shape ∈ shapes, board.Compares loose root shape := by
    conv => rhs; rw [← List.zipIdx_map_fst 0 shapes]
    simp only [List.mem_map, exists_exists_and_eq_and]
  simp only [some_iff, List.map_map, Function.comp_def] at roots
  rw [placements, List.flatMap_def]
  exact roots.map List.flatten

/-- Under a kind that a path gates, each search says what it finds if it comes to compare no two cells, and is
refused if it does: a search for groups if two shaded cells lie close together, a line of sight if the next cell
is shaded, and a search for shapes if one of them lies on shaded cells and has to be seen to hold together or to
be alone. -/
theorem gated_unsupported (bounded : board.Bounded) (gated : ¬ kind.Fixed) (source : Cell) (loose : Bool)
    {shapes : List Polyomino} (placeable : ∀ shape ∈ shapes, board.Placeable kind shape) :
    UnsupportedWhen kind board.Clustered (board.reachable source kind)
        (if board.isShaded source then [source] else []) ∧
      UnsupportedWhen kind board.Clustered (board.components kind) (board.shadedCells.map ([·])) ∧
      UnsupportedWhen kind board.Clustered (board.isConnected kind) (decide (board.shadedCells.length ≤ 1)) ∧
      UnsupportedWhen kind
        (board.isShaded source = true ∧ ∃ next ∈ board.shadedCells, Adjacency.side.Near source next)
        (board.bulb source kind) (if board.isShaded source then [source] else []) ∧
      UnsupportedWhen kind (∃ root ∈ board.locations, ∃ shape ∈ shapes, board.Compares loose root shape)
        (board.occurrences shapes kind loose) (board.placements shapes) :=
  ⟨reachable_unsupported bounded gated source, components_unsupported bounded gated,
    isConnected_unsupported bounded gated, bulb_unsupported bounded gated source,
    occurrences_unsupported bounded gated loose placeable⟩

def tallDomino : Polyomino := ⟨[.of 0 0, .of 1 0]⟩

/-- A column of three cells, of which the first two are shaded. -/
def columnBoard : Board := ofShading 3 1 (by decide) fun row _ => row < 2

theorem tallDomino_placeable (kind : Adjacency) : columnBoard.Placeable kind tallDomino := by
  refine ⟨fun pair member => ?_, fun root inside cell member => ?_⟩
  · have apart : ∀ pair ∈ Cell.pairs tallDomino.cells,
        (pair.1.row.val - pair.2.row.val).natAbs + (pair.1.col.val - pair.2.col.val).natAbs ≤ 2147483647 := by decide
    exact Adjacency.exists_touches kind (apart pair member)
  · have bounds := contains_iff.mp inside
    have small : ∀ cell ∈ tallDomino.cells, (0 ≤ cell.row.val ∧ cell.row.val ≤ 1) ∧ cell.col.val = 0 := by decide
    have near := small cell member
    rw [Cell.exists_shift_iff]
    simp only [columnBoard, ofShading] at bounds
    omega

theorem gated_unsupported_domino : columnBoard.Bounded ∧ ¬ Adjacency.path.Fixed ∧
    (∀ shape ∈ [tallDomino], columnBoard.Placeable .path shape) ∧
    columnBoard.reachable (.of 1 0) .path = .error (.unsupportedAdjacency "loop") ∧
    columnBoard.components .path = .error (.unsupportedAdjacency "loop") ∧
    columnBoard.isConnected .path = .error (.unsupportedAdjacency "loop") ∧
    columnBoard.bulb (.of 1 0) .path = .error (.unsupportedAdjacency "loop") ∧
    columnBoard.occurrences [tallDomino] .path true = .error (.unsupportedAdjacency "loop") := by
  have bounded : columnBoard.Bounded := ⟨by decide, by decide⟩
  have gated : ¬ Adjacency.path.Fixed := fun fixed => fixed.1 rfl
  have placeable : ∀ shape ∈ [tallDomino], columnBoard.Placeable .path shape := by
    simpa using tallDomino_placeable .path
  obtain ⟨reachable, components, connected, bulb, occurrences⟩ :=
    gated_unsupported bounded gated (.of 1 0) true placeable
  have clustered : columnBoard.Clustered := by decide +kernel
  exact ⟨bounded, gated, placeable, reachable.refused clustered, components.refused clustered,
    connected.refused clustered, bulb.refused (by decide +kernel), occurrences.refused (by decide +kernel)⟩

/-- Where nothing is shaded, every search answers under both kinds. -/
theorem gated_answered_blank :
    [Adjacency.path, .directedPath].map ((blank 1 1 (by decide)).reachable (.of 0 0)) = [.ok [], .ok []] ∧
    [Adjacency.path, .directedPath].map (blank 1 1 (by decide)).components = [.ok [], .ok []] ∧
    [Adjacency.path, .directedPath].map (blank 1 1 (by decide)).isConnected = [.ok true, .ok true] ∧
    [Adjacency.path, .directedPath].map ((blank 1 1 (by decide)).bulb (.of 0 0)) = [.ok [], .ok []] ∧
    [Adjacency.path, .directedPath].map ((blank 1 1 (by decide)).occurrences [⟨[.of 0 0]⟩] · false) =
      [.ok [], .ok []] := by
  decide +kernel

end Board

end GridPuzzle
