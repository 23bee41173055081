import GridPuzzle.Proofs.Board.Joined

/-!
Groups as classes. What a board reaches from a shaded cell is the class of that cell. The groups are these
classes, each listed once and in the order of their least cells, so that a board is connected exactly if any
two shaded cells are joined.
-/
namespace GridPuzzle.Board

variable {board : Board} {kind : Adjacency} {cell : Cell} {group later : List Cell} {groups : List (List Cell)}

theorem IsGroup.head_mem (isGroup : board.IsGroup kind group) :
    ∃ first, group.head? = some first ∧ first ∈ group := by
  obtain ⟨first, rest, rfl⟩ := List.exists_cons_of_ne_nil isGroup.inhabited
  exact ⟨first, rfl, List.mem_cons_self⟩

/-- A group that comes before another has no cell of it. -/
theorem IsGroup.disjoint (isGroup : board.IsGroup kind group) (isLater : board.IsGroup kind later)
    (fixed : kind.Fixed) (before : ∀ first ∈ group.head?, ∀ cell ∈ later, first < cell) :
    List.Disjoint group later := by
  intro cell inGroup inLater
  obtain ⟨first, isFirst, inFirst⟩ := isGroup.head_mem
  have joined := (isGroup.joined first inFirst cell).mp inGroup
  have inBoth := (isLater.joined cell inLater first).mpr (joined.symm fixed)
  exact Cell.not_lt_self first (before first isFirst first inBoth)

theorem components_disjoint (fixed : kind.Fixed) (grouped : board.components kind = .ok groups) :
    groups.Pairwise List.Disjoint := by
  obtain ⟨classes, _⟩ := IsGroup.of_components fixed grouped
  refine (components_ordered fixed grouped).imp_of_mem fun {group later} member member' before => ?_
  exact (classes group member).disjoint (classes later member') fixed before

theorem reachable_of_mem (fixed : kind.Fixed) (isGroup : board.IsGroup kind group) (inside : cell ∈ group)
    {found : List Cell} (reached : board.reachable cell kind = .ok found) : found = group := by
  refine (reachable_increasing reached).eq isGroup.increasing fun other => ?_
  rw [mem_reachable fixed reached, and_iff_right (isGroup.shaded cell inside), isGroup.joined cell inside]

theorem exists_isConnected (grouped : board.components kind = .ok groups) :
    ∃ answer, board.isConnected kind = .ok answer :=
  ⟨_, Outcome.bind_of_ok grouped _⟩

theorem isConnected_iff (fixed : kind.Fixed) {answer : Bool} (decided : board.isConnected kind = .ok answer) :
    answer = true ↔ ∀ a b, board.isShaded a = true → board.isShaded b = true → board.Joined kind a b := by
  obtain ⟨groups, grouped, same⟩ := Outcome.bind_eq_ok.mp decided
  obtain ⟨classes, covered⟩ := IsGroup.of_components fixed grouped
  rw [← Outcome.pure_eq_ok.mp same, decide_eq_true_iff]
  constructor
  · intro few a b shadedA shadedB
    obtain ⟨group, isGroup, inA⟩ := covered a shadedA
    obtain ⟨other, isOther, inB⟩ := covered b shadedB
    have one : group = other := by
      obtain ⟨i, small, rfl⟩ := List.mem_iff_getElem.mp isGroup
      obtain ⟨j, small', rfl⟩ := List.mem_iff_getElem.mp isOther
      congr 1
      omega
    exact ((classes group isGroup).joined a inA b).mp (one ▸ inB)
  · intro joined
    match groups, components_disjoint fixed grouped, classes with
    | [], _, _ => exact Nat.zero_le 1
    | [_], _, _ => exact Nat.le_refl 1
    | first :: second :: _, disjoint, classes =>
      have isFirst := classes first List.mem_cons_self
      have isSecond := classes second (List.mem_cons_of_mem _ List.mem_cons_self)
      obtain ⟨a, _, inA⟩ := isFirst.head_mem
      obtain ⟨b, _, inB⟩ := isSecond.head_mem
      have toB := (isFirst.joined a inA b).mpr (joined a b (isFirst.shaded a inA) (isSecond.shaded b inB))
      exact absurd inB ((List.pairwise_cons.mp disjoint).1 second List.mem_cons_self toB)

/-- The groups of a board are found unless there is no coordinate left beside some shaded cell. Then each
cell reaches just what paths of shaded neighbors join to it. The groups hold the shaded cells, each of them
in one group, which is what it reaches. They are not empty, have no cell in common and come in the order of
their least cells, and the board is connected exactly if any two shaded cells reach each other. -/
theorem groups_agree (board : Board) (kind : Adjacency) (fixed : kind.Fixed) :
    (board.Bounded → ∃ groups, board.components kind = .ok groups) ∧
      ∀ groups, board.components kind = .ok groups → ∃ (reached : Cell → List Cell) (answer : Bool),
        (∀ source, board.reachable source kind = .ok (reached source)) ∧
        board.isConnected kind = .ok answer ∧
        (∀ source cell, cell ∈ reached source ↔
          board.isShaded source = true ∧ board.Joined kind source cell) ∧
        (∀ source, ¬ board.isShaded source = true → reached source = []) ∧
        (∀ cell, board.isShaded cell = true ↔ ∃ group ∈ groups, cell ∈ group) ∧
        (∀ group ∈ groups, group ≠ [] ∧ Cell.Increasing group ∧ ∀ cell ∈ group, reached cell = group) ∧
        groups.Pairwise (fun group later => List.Disjoint group later ∧
          ∀ least ∈ group.head?, ∀ least' ∈ later.head?, least < least') ∧
        (answer = true ↔ ∀ a b, board.isShaded a = true → board.isShaded b = true → b ∈ reached a) := by
  refine ⟨fun bounded => bounded.exists_components fixed, fun groups grouped => ?_⟩
  obtain ⟨classes, covered⟩ := IsGroup.of_components fixed grouped
  obtain ⟨answer, decided⟩ := exists_isConnected grouped
  choose reached found using exists_reachable grouped
  have mem_iff (source cell : Cell) : cell ∈ reached source ↔
      board.isShaded source = true ∧ board.Joined kind source cell := mem_reachable fixed (found source)
  refine ⟨reached, answer, found, decided, mem_iff, fun source unshaded => ?_, fun cell => ⟨covered cell, ?_⟩,
    fun group member => ?_, ?_, ?_⟩
  · refine List.eq_nil_iff_forall_not_mem.mpr fun cell member => ?_
    exact unshaded ((mem_iff source cell).mp member).1
  · intro inSome
    obtain ⟨group, member, inside⟩ := inSome
    exact (classes group member).shaded cell inside
  · have isGroup := classes group member
    exact ⟨isGroup.inhabited, isGroup.increasing,
      fun cell inside => reachable_of_mem fixed isGroup inside (found cell)⟩
  · refine ((components_disjoint fixed grouped).and (components_ordered fixed grouped)).imp ?_
    intro group later both
    exact ⟨both.1, fun least first least' first' => both.2 least first least' (List.mem_of_head? first')⟩
  · rw [isConnected_iff fixed decided]
    refine forall_congr' fun a => forall_congr' fun b => forall_congr' fun shaded => forall_congr' fun _ => ?_
    rw [mem_iff, and_iff_right shaded]

/-- Three cells in a row, where a wall stands behind the first. -/
def gateBoard : Board := (ofShading 1 3 (by decide) fun _ _ => true).addWall (.of 0 1) (.of 0 0)

theorem groups_agree_gate : gateBoard.components .walled = .ok [[.of 0 0], [.of 0 1, .of 0 2]] ∧
    gateBoard.reachable (.of 0 2) .walled = .ok [.of 0 1, .of 0 2] ∧
    gateBoard.isConnected .walled = .ok false := by
  have grouped : gateBoard.components .walled = .ok [[.of 0 0], [.of 0 1, .of 0 2]] := by decide +kernel
  obtain ⟨_, found⟩ := groups_agree gateBoard .walled ⟨nofun, nofun⟩
  obtain ⟨reached, answer, each, decided, _, _, _, own, disjoint, connected⟩ := found _ grouped
  have last := (own [.of 0 1, .of 0 2] (by simp)).2.2
  refine ⟨grouped, (each _).trans (congrArg _ (last (.of 0 2) (by simp))), decided.trans (congrArg _ ?_)⟩
  rw [Bool.eq_false_iff, Ne, connected]
  intro joined
  have across := joined (.of 0 1) (.of 0 0) (by decide) (by decide)
  rw [last (.of 0 1) (by simp)] at across
  exact absurd across (by decide)

end GridPuzzle.Board
