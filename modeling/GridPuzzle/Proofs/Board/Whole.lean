import GridPuzzle.Proofs.Board.Placement
import GridPuzzle.Proofs.Polyomino.Connected
import GridPuzzle.Proofs.Polyomino.Orbit

/-!
Shapes that stand alone. Where no other shaded cell may touch it, a connected shape occurs just where it is
a whole group of the board, so that the search finds the groups that have one of the shapes, in their order.
-/
namespace GridPuzzle

namespace Board

variable {board : Board} {kind : Adjacency} {image : Polyomino} {root cell : Cell} {group : List Cell}

/-- The occurrence that a group is, if it has one of the shapes: its least cell and the index of the shape.
Where walls count, none may stand inside the group. -/
def wholeGroup (board : Board) (shapes : List Polyomino) (kind : Adjacency) (group : List Cell) :
    Option (Cell × Nat) := do
  let least ← group.head?
  let shape ← (Polyomino.ofCells group).toOption
  let index ← shapes.idxOf? shape
  if kind = .walled ∧ board.Parted group then none else some (least, index)

theorem wholeGroup_eq_some {shapes : List Polyomino} {index : Nat} :
    board.wholeGroup shapes kind group = some (root, index) ↔ group.head? = some root ∧
      ¬ (kind = .walled ∧ board.Parted group) ∧ ∃ shape, Polyomino.ofCells group = .ok shape ∧
        shapes.idxOf? shape = some index := by
  have toOption_eq (shape : Polyomino) : (Polyomino.ofCells group).toOption = some shape ↔
      Polyomino.ofCells group = .ok shape := by
    cases Polyomino.ofCells group <;> simp [Except.toOption]
  simp only [wholeGroup, Option.bind_eq_bind, Option.bind_eq_some_iff, toOption_eq]
  constructor
  · intro parts
    obtain ⟨least, isFirst, shape, built, number, isNumber, chosen⟩ := parts
    split at chosen
    · cases chosen
    · rename_i whole
      cases chosen
      exact ⟨isFirst, whole, shape, built, isNumber⟩
  · intro parts
    obtain ⟨isFirst, whole, shape, built, isNumber⟩ := parts
    exact ⟨root, isFirst, shape, built, index, isNumber, if_neg whole⟩

private theorem idxOf?_iff {shapes : List Polyomino} (distinct : shapes.Nodup) {shape : Polyomino}
    {index : Nat} : shapes.idxOf? shape = some index ↔ shapes[index]? = some shape := by
  rw [List.idxOf?_eq_some_iff, List.getElem?_eq_some_iff]
  refine exists_congr fun short => and_iff_left_of_imp fun isShape earlier before same => ?_
  exact Nat.ne_of_lt before (distinct.getElem_inj_iff.mp (same.trans isShape.symm))

/-- The cells are those that the shape has when it is placed at the root. -/
def FillsAt (root : Cell) (image : Polyomino) (cells : List Cell) : Prop :=
  ∀ point, image.Has point ↔ ∃ cell ∈ cells, point = cell.point - root.point

private theorem shift_iff {own : Cell} : root.shift own = .ok cell ↔ own.point = cell.point - root.point := by
  rw [Cell.shift_eq_ok, Cell.point, Cell.point, Cell.point, Prod.mk_sub_mk, Prod.mk.injEq]
  omega

namespace IsGroup

variable (isGroup : board.IsGroup kind group)
include isGroup

theorem exists_ofCells : ∃ shape, Polyomino.ofCells group = .ok shape := by
  refine Polyomino.exists_ofCells_of_nonneg isGroup.inhabited fun cell member => ?_
  have bounds := contains_iff.mp (isGroup.contains member)
  exact ⟨bounds.1.1, bounds.2.1⟩

/-- A group has a given normal shape and a given least cell exactly if it fills the shape there. -/
theorem fillsAt_iff (normal : image.Normal) :
    FillsAt root image group ↔ group.head? = some root ∧ Polyomino.ofCells group = .ok image := by
  have seen {shape : Polyomino} (least : group.head? = some root)
      (built : Polyomino.ofCells group = .ok shape) : FillsAt root shape group := by
    obtain ⟨rest, rfl⟩ := List.head?_eq_some_iff.mp least
    rw [Polyomino.ofCells, isGroup.increasing.sort_eq] at built
    exact Polyomino.has_settle built
  constructor
  · intro fills
    obtain ⟨origin, member, same⟩ := (fills (0, 0)).mp normal.has_origin
    obtain rfl : origin = root := Cell.point_injective (sub_eq_zero.mp same.symm)
    have least : group.head? = some origin := by
      refine isGroup.increasing.head?_eq member fun cell inside => ?_
      have after := normal.least_point ((fills _).mpr ⟨cell, inside, rfl⟩)
      simp only [Cell.point, Prod.fst_sub, Prod.snd_sub] at after
      rw [Cell.lt_iff]
      omega
    obtain ⟨shape, built⟩ := isGroup.exists_ofCells
    have still (point : ℤ × ℤ) : shape.Has point ↔ image.Has (point + 0) := by
      rw [add_zero, fills, seen least built]
    rw [normal.eq_of_shift (Polyomino.normal_ofCells built) still] at built
    exact ⟨least, built⟩
  · intro parts
    exact seen parts.1 parts.2

end IsGroup

private theorem near_irrefl : ¬ kind.Near cell cell := by
  cases kind <;> simp [Adjacency.Near]

namespace Occurs

variable (occurs : board.Occurs kind false root.row.val root.col.val image)
include occurs

theorem exists_place {own : Cell} (member : own ∈ image.cells) :
    ∃ place, root.shift own = .ok place ∧ board.isShaded place = true := by
  obtain ⟨place, shaded, rows, cols⟩ := occurs.shaded own member
  exact ⟨place, Cell.shift_eq_ok.mpr ⟨rows, cols⟩, shaded⟩

theorem isShaded {own place : Cell} (member : own ∈ image.cells) (placed : root.shift own = .ok place) :
    board.isShaded place = true :=
  (shades_shift placed).mp (occurs.shaded own member)

/-- Cells of the shape that touch are linked where they are placed. -/
theorem linked (fixed : kind.Fixed) {own other a b : Cell} (inOwn : own ∈ image.cells)
    (inOther : other ∈ image.cells) (near : kind.Near own other) (first : root.shift own = .ok a)
    (second : root.shift other = .ok b) : board.Linked kind a b := by
  refine ⟨occurs.isShaded inOwn first, occurs.isShaded inOther second, ?_⟩
  have different : own ≠ other := fun same => near_irrefl (same ▸ near)
  rcases Cell.mem_pairs_or inOwn inOther different with member | member
  · exact (adjoins_shift first second).mp (occurs.joined _ member near)
  · exact adjacent_symm fixed ((adjoins_shift second first).mp (occurs.joined _ member near.symm))

/-- What is linked to a cell of the placed shape is one of its cells. -/
theorem closed (fixed : kind.Fixed) {own a b : Cell} (inOwn : own ∈ image.cells)
    (placed : root.shift own = .ok a) (linked : board.Linked kind a b) :
    ∃ other ∈ image.cells, root.shift other = .ok b := by
  obtain ⟨_, shaded, adjacent⟩ := linked
  obtain ⟨offset, around, stepped⟩ := mem_surroundings_of_close ((adjacent_iff fixed).mp adjacent).2.1
  have moved := Cell.shift_eq_ok.mp placed
  have movedOn := Cell.shift_eq_ok.mp stepped
  have rows : b.row.val = root.row.val + (own.row.val + offset.row.val) := by omega
  have cols : b.col.val = root.col.val + (own.col.val + offset.col.val) := by omega
  by_contra outside
  refine occurs.alone rfl (own, offset) (Cell.mem_steps.mpr ⟨inOwn, around⟩) (fun has => outside ?_) ?_ ?_
  · obtain ⟨other, inOther, same⟩ := has
    refine ⟨other, inOther, shift_iff.mpr ?_⟩
    rw [same, Cell.point, Cell.point, Prod.mk_sub_mk, Prod.mk.injEq]
    dsimp only
    omega
  · rw [← rows, ← cols, ← moved.1, ← moved.2]
    exact adjoins_cells.mpr adjacent
  · rw [← rows, ← cols]
    exact shades_cell.mpr shaded

theorem joined_iff (fixed : kind.Fixed) (normal : image.Normal) (connected : image.Connected kind) :
    board.Joined kind root cell ↔ ∃ own ∈ image.cells, root.shift own = .ok cell := by
  have origin := List.mem_of_head? normal.first
  have atRoot : root.shift (.of 0 0) = .ok root :=
    Cell.shift_eq_ok.mpr ⟨(Int.add_zero _).symm, (Int.add_zero _).symm⟩
  constructor
  · intro joined
    induction joined with
    | refl => exact ⟨_, origin, atRoot⟩
    | tail _ linked ih =>
      obtain ⟨own, inside, placed⟩ := ih
      exact occurs.closed fixed inside placed linked
  · intro own
    obtain ⟨own, inside, placed⟩ := own
    have path := connected _ origin own inside
    clear inside
    induction path generalizing cell with
    | refl =>
      cases atRoot.symm.trans placed
      exact .refl
    | @tail before own earlier step ih =>
      have inBefore : before ∈ image.cells := Polyomino.mem_of_path origin earlier
      obtain ⟨place, placed', _⟩ := occurs.exists_place inBefore
      exact (ih placed').tail
        (occurs.linked fixed inBefore step.1 (Adjacency.touches_iff.mp step.2) placed' placed)

end Occurs

/-- A connected shape that lies alone is a whole group, and no wall parts it, as far as walls count. -/
theorem Occurs.exists_group (occurs : board.Occurs kind false root.row.val root.col.val image)
    (fixed : kind.Fixed) (normal : image.Normal) (connected : image.Connected kind)
    {groups : List (List Cell)} (classes : ∀ group ∈ groups, board.IsGroup kind group)
    (covered : ∀ cell, board.isShaded cell = true → ∃ group ∈ groups, cell ∈ group) :
    ∃ group ∈ groups, FillsAt root image group ∧ ¬ (kind = .walled ∧ board.Parted group) := by
  have own_iff (cell : Cell) : board.Joined kind root cell ↔ ∃ own ∈ image.cells, root.shift own = .ok cell :=
    occurs.joined_iff fixed normal connected
  obtain ⟨own, inOwn, placed⟩ := (own_iff root).mp .refl
  obtain ⟨group, isGroup, rootIn⟩ := covered root (occurs.isShaded inOwn placed)
  have mem_iff (cell : Cell) : cell ∈ group ↔ ∃ own ∈ image.cells, root.shift own = .ok cell :=
    ((classes group isGroup).joined root rootIn cell).trans (own_iff cell)
  refine ⟨group, isGroup, fun point => ?_, fun parted => ?_⟩
  · constructor
    · intro has
      obtain ⟨own, inside, rfl⟩ := has
      obtain ⟨place, placed, _⟩ := occurs.exists_place inside
      exact ⟨place, (mem_iff place).mpr ⟨own, inside, placed⟩, shift_iff.mp placed⟩
    · intro found
      obtain ⟨cell, member, rfl⟩ := found
      obtain ⟨own, inside, placed⟩ := (mem_iff cell).mp member
      exact ⟨own, inside, shift_iff.mp placed⟩
  · obtain ⟨rfl, a, inA, b, inB, near, walled⟩ := parted
    obtain ⟨own, inside, placed⟩ := (mem_iff a).mp inA
    obtain ⟨other, inside', placed'⟩ := (mem_iff b).mp inB
    have close : Adjacency.walled.Near own other := (Cell.near_shift placed placed').mp near
    have linked := occurs.linked fixed inside inside' close placed placed'
    have free := ((adjacent_iff fixed).mp linked.2.2).2.2 rfl
    exact Bool.noConfusion (free.symm.trans walled)

/-- A shape that fills a group lies alone there, unless a wall parts the group and counts. -/
theorem IsGroup.occurs (isGroup : board.IsGroup kind group) (fixed : kind.Fixed)
    (fills : FillsAt root image group) (whole : ¬ (kind = .walled ∧ board.Parted group)) :
    board.Occurs kind false root.row.val root.col.val image := by
  have exists_place {own : Cell} (inside : own ∈ image.cells) : ∃ cell ∈ group, root.shift own = .ok cell := by
    obtain ⟨cell, member, same⟩ := (fills own.point).mp ⟨own, inside, rfl⟩
    exact ⟨cell, member, shift_iff.mpr same⟩
  refine ⟨fun own inside => ?_, fun pair member near => ?_, fun _ step member outside adjoins shades => ?_⟩
  · obtain ⟨place, inGroup, placed⟩ := exists_place inside
    exact ⟨place, isGroup.shaded place inGroup, Cell.shift_eq_ok.mp placed⟩
  · obtain ⟨inFirst, inSecond⟩ := Cell.mem_of_mem_pairs member
    obtain ⟨a, inA, first⟩ := exists_place inFirst
    obtain ⟨b, inB, second⟩ := exists_place inSecond
    have close := (Cell.near_shift first second).mpr near
    refine (adjoins_shift first second).mpr ((adjacent_iff fixed).mpr ?_)
    refine ⟨⟨isGroup.contains inA, isGroup.contains inB⟩, close, fun counts => ?_⟩
    subst counts
    exact Bool.eq_false_iff.mpr fun walled => whole ⟨rfl, a, inA, b, inB, close, walled⟩
  · obtain ⟨inside, _⟩ := Cell.mem_steps.mp member
    obtain ⟨a, inA, placed⟩ := exists_place inside
    obtain ⟨b, shaded, rows, cols⟩ := shades
    have moved := Cell.shift_eq_ok.mp placed
    rw [← moved.1, ← moved.2, ← rows, ← cols, adjoins_cells] at adjoins
    have inB := (isGroup.joined a inA b).mpr (.single ⟨isGroup.shaded a inA, shaded, adjoins⟩)
    refine outside ((fills _).mpr ⟨b, inB, ?_⟩)
    rw [Cell.point, Cell.point, Prod.mk_sub_mk, Prod.mk.injEq]
    omega

theorem occurs_iff_group (fixed : kind.Fixed) (normal : image.Normal)
    (connected : image.Connected kind) {groups : List (List Cell)}
    (grouped : board.components kind = .ok groups) :
    board.Occurs kind false root.row.val root.col.val image ↔ ∃ group ∈ groups, group.head? = some root ∧
      ¬ (kind = .walled ∧ board.Parted group) ∧ Polyomino.ofCells group = .ok image := by
  obtain ⟨classes, covered⟩ := IsGroup.of_components fixed grouped
  constructor
  · intro occurs
    obtain ⟨group, member, fills, whole⟩ := occurs.exists_group fixed normal connected classes covered
    obtain ⟨least, built⟩ := ((classes group member).fillsAt_iff normal).mp fills
    exact ⟨group, member, least, whole, built⟩
  · intro found
    obtain ⟨group, member, least, whole, built⟩ := found
    have fills := ((classes group member).fillsAt_iff normal).mpr ⟨least, built⟩
    exact (classes group member).occurs fixed fills whole

/-- As long as the shape and the board are small together, all sums and differences of the search fit. -/
theorem searchable_of_span (normal : image.Normal) {size : Nat}
    (span : ∀ a ∈ image.cells, ∀ b ∈ image.cells,
      (a.row.val - b.row.val).natAbs < size ∧ (a.col.val - b.col.val).natAbs < size)
    (rows : board.rows + size ≤ 2147483649) (cols : board.cols + size ≤ 2147483649)
    (sides : board.rows + board.cols ≤ 2147483649) : board.Searchable kind image := by
  refine ⟨fun root onBoard cell member => ?_, fun root shaded pair member => ?_⟩
  · have bounds := contains_iff.mp onBoard
    have apart := span cell member _ (List.mem_of_head? normal.first)
    have zero : (Cell.of 0 0).row.val = 0 ∧ (Cell.of 0 0).col.val = 0 := ⟨rfl, rfl⟩
    rw [Cell.exists_shift_iff]
    omega
  · obtain ⟨inFirst, inSecond⟩ := Cell.mem_of_mem_pairs member
    obtain ⟨first, onFirst, rows, cols⟩ := (shaded _ inFirst).covers
    obtain ⟨second, onSecond, rows', cols'⟩ := (shaded _ inSecond).covers
    have bounds := contains_iff.mp onFirst
    have bounds' := contains_iff.mp onSecond
    exact Adjacency.exists_touches kind (by omega)

theorem wholeGroups_ordered (fixed : kind.Fixed) {shapes : List Polyomino}
    {groups : List (List Cell)} (grouped : board.components kind = .ok groups) :
    (groups.filterMap (board.wholeGroup shapes kind)).Pairwise Precedes := by
  refine List.Pairwise.filterMap _ ?_ (components_ordered fixed grouped)
  intro group later before here isHere there isThere
  have least := (wholeGroup_eq_some.mp isHere).1
  have inLater := List.mem_of_head? (wholeGroup_eq_some.mp isThere).1
  exact .inl (before _ least _ inLater)

/-- A search for connected shapes finds the groups that have one of them, in the order of the groups. -/
theorem found_eq_wholeGroups (fixed : kind.Fixed) {shapes : List Polyomino} (distinct : shapes.Nodup)
    (each : ∀ image ∈ shapes, image.Normal ∧ image.Connected kind) {groups : List (List Cell)}
    (grouped : board.components kind = .ok groups) {found : List (Cell × Nat)}
    (searched : board.occurrences shapes kind false = .ok found) :
    found = groups.filterMap (board.wholeGroup shapes kind) := by
  obtain ⟨classes, _⟩ := IsGroup.of_components fixed grouped
  have occurs_iff {image : Polyomino} (member : image ∈ shapes) (root : Cell) :
      board.Occurs kind false root.row.val root.col.val image ↔ ∃ group ∈ groups, group.head? = some root ∧
        ¬ (kind = .walled ∧ board.Parted group) ∧ Polyomino.ofCells group = .ok image :=
    occurs_iff_group fixed (each image member).1 (each image member).2 grouped
  refine (occurrences_ordered searched).eq_of_mem_iff (wholeGroups_ordered fixed grouped) fun pair => ?_
  obtain ⟨root, index⟩ := pair
  rw [occurrences_iff searched, List.mem_filterMap]
  simp only [wholeGroup_eq_some, idxOf?_iff distinct]
  constructor
  · intro occurring
    obtain ⟨_, image, isImage, occurs⟩ := occurring
    obtain ⟨group, member, least, whole, own⟩ := (occurs_iff (List.mem_of_getElem? isImage) root).mp occurs
    exact ⟨group, member, least, whole, image, own, isImage⟩
  · intro listed
    obtain ⟨group, member, least, whole, image, own, isImage⟩ := listed
    have occurs := (occurs_iff (List.mem_of_getElem? isImage) root).mpr ⟨group, member, least, whole, own⟩
    exact ⟨(classes group member).contains (List.mem_of_head? least), image, isImage, occurs⟩

/-- The search for the orientations of a connected shape, with no other shaded cell touching them, finds the
groups that have one of these shapes, in the order of the groups, and nothing else, as long as its own sums and
differences fit, as they do where the board and the shape are small together. It overflows where some orientation
has no place at some cell, whatever is shaded there. -/
theorem occurrences_eq_wholeGroups (fixed : kind.Fixed) {cells : List Cell} {shape : Polyomino}
    (built : Polyomino.ofCells cells = .ok shape)
    (narrow : ∀ a ∈ shape.cells, ∀ b ∈ shape.cells, a.col.val - b.col.val ≤ 2147483647)
    (connected : shape.Connected kind) (symmetry : Symmetry) :
    ∃ shapes, shape.orientations symmetry = .ok shapes ∧
      (∀ groups, board.components kind = .ok groups →
        (∀ group ∈ groups, ∃ own, Polyomino.ofCells group = .ok own) ∧
        ∀ found, board.occurrences shapes kind false = .ok found →
          found = groups.filterMap (board.wholeGroup shapes kind)) ∧
      (board.Bounded → ∃ groups, board.components kind = .ok groups ∧
        ((∀ image ∈ shapes, board.Searchable kind image) →
          board.occurrences shapes kind false = .ok (groups.filterMap (board.wholeGroup shapes kind)))) ∧
      (board.rows + shape.size ≤ 2147483649 → board.cols + shape.size ≤ 2147483649 →
        board.rows + board.cols ≤ 2147483649 → ∀ image ∈ shapes, board.Searchable kind image) ∧
      ∀ image ∈ shapes, ∀ root, board.contains root = true → ∀ cell ∈ image.cells,
        (¬ ∃ place, root.shift cell = .ok place) →
          ∃ operation, board.occurrences shapes kind false = .error (.overflow operation) := by
  have normal := Polyomino.normal_ofCells built
  obtain ⟨shapes, oriented, _, ⟨distinct, _⟩, led⟩ := normal.orientations_ok narrow symmetry
  have turned (image : Polyomino) (member : image ∈ shapes) :
      image.Normal ∧ ∃ orientation, Polyomino.Turned orientation shape image := by
    obtain ⟨imageNormal, _, orientation, _, toImage⟩ := normal.of_leads narrow ((led image).mp member)
    exact ⟨imageNormal, orientation, toImage⟩
  have each (image : Polyomino) (member : image ∈ shapes) : image.Normal ∧ image.Connected kind := by
    obtain ⟨imageNormal, _, toImage⟩ := turned image member
    exact ⟨imageNormal, toImage.connected connected⟩
  refine ⟨shapes, oriented, fun groups grouped => ⟨fun group member => ?_, fun found searched => ?_⟩,
    fun bounded => ?_, fun rows cols sides image member => ?_, fun image member root onBoard cell inside beyond => ?_⟩
  · exact ((IsGroup.of_components fixed grouped).1 group member).exists_ofCells
  · exact found_eq_wholeGroups fixed distinct each grouped searched
  · obtain ⟨groups, grouped⟩ := bounded.exists_components fixed
    refine ⟨groups, grouped, fun searchable => ?_⟩
    obtain ⟨found, searched⟩ := exists_occurrences bounded fixed false searchable
    rw [searched, found_eq_wholeGroups fixed distinct each grouped searched]
  · obtain ⟨imageNormal, _, toImage⟩ := turned image member
    exact searchable_of_span imageNormal (fun a inA b inB => toImage.span_lt connected inA inB) rows cols sides
  · exact occurrences_overflows fixed member onBoard inside beyond

def square : Polyomino := ⟨[.of 0 0, .of 0 1, .of 1 0, .of 1 1]⟩

private theorem connected_of_twoSteps {shape : Polyomino} (twoSteps : ∀ a ∈ shape.cells, ∀ b ∈ shape.cells,
    ∃ c ∈ shape.cells, (a = c ∨ kind.touches a c = .ok true) ∧ (c = b ∨ kind.touches c b = .ok true)) :
    shape.Connected kind := by
  intro a inA b inB
  obtain ⟨c, inC, first, second⟩ := twoSteps a inA b inB
  have toC : Relation.ReflTransGen (fun p q => q ∈ shape.cells ∧ kind.touches p q = .ok true) a c := by
    rcases first with rfl | touches
    · exact .refl
    · exact .single ⟨inC, touches⟩
  rcases second with rfl | touches
  · exact toC
  · exact toC.tail ⟨inB, touches⟩

theorem square_connected : square.Connected .walled := connected_of_twoSteps (by decide)

/-- Two squares, where a wall stands between two cells of the first. -/
def squaresBoard : Board := (ofShading 2 5 (by decide) fun _ col => col ≠ 2).addWall (.of 0 0) (.of 0 1)

theorem occurrences_eq_wholeGroups_squares :
    squaresBoard.Bounded ∧ Polyomino.ofCells square.cells = .ok square ∧ square.Connected .walled ∧
      ∃ shapes groups, square.orientations .full = .ok shapes ∧ squaresBoard.components .walled = .ok groups ∧
        groups.length = 2 ∧ groups.filterMap (squaresBoard.wholeGroup shapes .walled) = [(.of 0 3, 0)] ∧
        squaresBoard.occurrences shapes .walled false = .ok [(.of 0 3, 0)] := by
  have bounded : squaresBoard.Bounded := ⟨by decide, by decide⟩
  have fixed : Adjacency.Fixed .walled := ⟨nofun, nofun⟩
  have built : Polyomino.ofCells square.cells = .ok square := by decide
  obtain ⟨shapes, oriented, _, whole, searchable, _⟩ :=
    @occurrences_eq_wholeGroups squaresBoard .walled fixed _ _ built (by decide) square_connected .full
  obtain ⟨groups, grouped, searched⟩ := whole bounded
  have shapes_eq : square.orientations .full = .ok [square] := by decide
  have groups_eq : squaresBoard.components .walled = .ok [[.of 0 0, .of 0 1, .of 1 0, .of 1 1],
      [.of 0 3, .of 0 4, .of 1 3, .of 1 4]] := by decide +kernel
  cases oriented.symm.trans shapes_eq
  cases grouped.symm.trans groups_eq
  have second : [[.of 0 0, .of 0 1, .of 1 0, .of 1 1], [.of 0 3, .of 0 4, .of 1 3, .of 1 4]].filterMap
      (squaresBoard.wholeGroup [square] .walled) = [(.of 0 3, 0)] := by decide
  refine ⟨bounded, built, square_connected, _, _, shapes_eq, groups_eq, rfl, second, ?_⟩
  rw [searched (searchable (by decide) (by decide) (by decide)), second]

theorem components_blank {rows cols : Nat} (positive : 0 < rows ∧ 0 < cols)
    (bounded : (blank rows cols positive).Bounded) (fixed : kind.Fixed) :
    (blank rows cols positive).components kind = .ok [] := by
  obtain ⟨groups, grouped⟩ := bounded.exists_components fixed
  obtain ⟨classes, _⟩ := IsGroup.of_components fixed grouped
  have none : groups = [] := by
    refine List.eq_nil_iff_forall_not_mem.mpr fun group member => ?_
    obtain ⟨cell, inside⟩ := List.exists_mem_of_ne_nil group (classes group member).inhabited
    obtain ⟨_, _, _, shaded⟩ := isShaded_iff_shadedAt.mp ((classes group member).shaded cell inside)
    exact not_shadedAt_blank positive shaded
  rw [grouped, none]

/-- Three cells one below the other. -/
def pole : Polyomino := ⟨[.of 0 0, .of 1 0, .of 2 0]⟩

theorem pole_connected : pole.Connected .side := connected_of_twoSteps (by decide)

/-- The search places the shape at all cells, also where nothing is shaded. In the longest column it overflows for
the last of them, though there is no group to find. -/
theorem occurrences_overflow_pole :
    (blank 2147483647 1 (by decide)).Bounded ∧ Polyomino.ofCells pole.cells = .ok pole ∧
      (∀ a ∈ pole.cells, ∀ b ∈ pole.cells, a.col.val - b.col.val ≤ 2147483647) ∧ pole.Connected .side ∧
      ∃ shapes groups, pole.orientations .full = .ok shapes ∧
        (blank 2147483647 1 (by decide)).components .side = .ok groups ∧
        groups.filterMap ((blank 2147483647 1 (by decide)).wholeGroup shapes .side) = [] ∧
        ∃ operation, (blank 2147483647 1 (by decide)).occurrences shapes .side false =
          .error (.overflow operation) := by
  have positive : 0 < 2147483647 ∧ 0 < 1 := by decide
  have bounded : (blank 2147483647 1 positive).Bounded := ⟨Nat.le_refl _, (by decide : 1 ≤ 2147483647)⟩
  have fixed : Adjacency.Fixed .side := ⟨nofun, nofun⟩
  have shapes_eq : pole.orientations .full = .ok [pole, ⟨[.of 0 0, .of 0 1, .of 0 2]⟩] := by decide
  refine ⟨bounded, by decide, by decide, pole_connected, _, [], shapes_eq,
    components_blank positive bounded fixed, rfl, ?_⟩
  have last : (blank 2147483647 1 positive).contains ⟨⟨2147483646, by decide⟩, .of 0⟩ = true :=
    contains_iff.mpr ⟨⟨by decide, Int.lt_succ _⟩, by decide, Int.lt_succ 0⟩
  have member : pole ∈ [pole, ⟨[.of 0 0, .of 0 1, .of 0 2]⟩] := List.mem_cons_self
  refine occurrences_overflows fixed member last (show Cell.of 2 0 ∈ pole.cells by decide) ?_
  rw [Cell.exists_shift_iff]
  decide

end Board

end GridPuzzle
