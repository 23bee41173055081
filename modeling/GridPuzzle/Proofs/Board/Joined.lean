import Mathlib.Logic.Relation
import GridPuzzle.Board.Group
import GridPuzzle.Proofs.Board.View
import GridPuzzle.Proofs.Flood

/-!
Neighbors and groups on a board. The graph of a board links each shaded cell to its shaded neighbors, so
that what is found in it are the classes of joined cells.
-/
namespace GridPuzzle

namespace Adjacency

/-- A board decides which cells are neighbors, as no path takes part. -/
def Fixed (kind : Adjacency) : Prop := kind ≠ .path ∧ kind ≠ .directedPath

theorem fixed_side : Fixed .side := ⟨nofun, nofun⟩

theorem fixed_walled : Fixed .walled := ⟨nofun, nofun⟩

/-- Where the cells lie, they are neighbors. -/
def Near (kind : Adjacency) (a b : Cell) : Prop :=
  match kind with
  | .corner => (a.row.val - b.row.val).natAbs = 1 ∧ (a.col.val - b.col.val).natAbs = 1
  | .around => (a.row.val - b.row.val).natAbs + (a.col.val - b.col.val).natAbs = 1 ∨
      (a.row.val - b.row.val).natAbs = 1 ∧ (a.col.val - b.col.val).natAbs = 1
  | .side | .walled | .path | .directedPath =>
      (a.row.val - b.row.val).natAbs + (a.col.val - b.col.val).natAbs = 1

instance decidableNear (kind : Adjacency) (a b : Cell) : Decidable (kind.Near a b) :=
  match kind with
  | .corner => inferInstanceAs (Decidable (_ ∧ _))
  | .around => inferInstanceAs (Decidable (_ ∨ _))
  | .side | .walled | .path | .directedPath => inferInstanceAs (Decidable (_ = _))

variable {kind : Adjacency} {a b : Cell} {answer : Bool}

theorem Near.symm (near : kind.Near a b) : kind.Near b a := by
  cases kind <;> simp only [Near] at * <;> omega

theorem Near.close (near : kind.Near a b) :
    (a.row.val - b.row.val).natAbs ≤ 1 ∧ (a.col.val - b.col.val).natAbs ≤ 1 := by
  cases kind <;> simp only [Near] at near <;> omega

theorem near_of_touches (touches : kind.touches a b = .ok answer) : answer = true ↔ kind.Near a b := by
  cases kind with
  | corner => exact (Cell.sharesCorner_eq_ok.mp touches).2
  | around =>
    obtain ⟨side, shared, corner⟩ := Outcome.bind_eq_ok.mp touches
    have sides := (Cell.sharesSide_eq_ok.mp shared).2
    cases side with
    | true =>
      have same : true = answer := Outcome.pure_eq_ok.mp corner
      exact ⟨fun _ => .inl (sides.mp rfl), fun _ => same.symm⟩
    | false =>
      have corners := (Cell.sharesCorner_eq_ok.mp corner).2
      rw [corners, Near, or_iff_right]
      exact fun one => Bool.noConfusion (sides.mpr one)
  | side | walled | path | directedPath => exact (Cell.sharesSide_eq_ok.mp touches).2

theorem exists_touches (kind : Adjacency)
    (fits : (a.row.val - b.row.val).natAbs + (a.col.val - b.col.val).natAbs ≤ 2147483647) :
    ∃ answer, kind.touches a b = .ok answer := by
  have side : ∃ answer, a.sharesSide b = .ok answer :=
    ⟨decide _, Cell.sharesSide_eq_ok.mpr ⟨fits, decide_eq_true_iff⟩⟩
  have corner : ∃ answer, a.sharesCorner b = .ok answer :=
    ⟨decide _, Cell.sharesCorner_eq_ok.mpr ⟨by omega, decide_eq_true_iff⟩⟩
  cases kind with
  | corner => exact corner
  | around =>
    obtain ⟨shared, shares⟩ := side
    change ∃ answer, (a.sharesSide b >>= fun side => if side then pure true else a.sharesCorner b) =
      .ok answer
    rw [Outcome.bind_of_ok shares]
    cases shared with
    | true => exact ⟨true, rfl⟩
    | false => exact corner
  | side | walled | path | directedPath => exact side

theorem touches_refusedOnly (kind : Adjacency) (a b : Cell) :
    Outcome.RefusedOnly Error.IsOverflow (kind.touches a b) := by
  cases kind with
  | corner => exact a.sharesCorner_refusedOnly b
  | around =>
    refine .bind (a.sharesSide_refusedOnly b) fun side _ => ?_
    cases side with
    | true => exact .of_ok _
    | false => exact a.sharesCorner_refusedOnly b
  | side | walled | path | directedPath => exact a.sharesSide_refusedOnly b

theorem touches_of_near (near : kind.Near a b) : kind.touches a b = .ok true := by
  have close := near.close
  obtain ⟨answer, touches⟩ := exists_touches (a := a) (b := b) kind (by omega)
  rw [touches, (near_of_touches touches).mpr near]

end Adjacency

namespace Board

variable {board : Board} {kind : Adjacency} {a b cell next : Cell}

theorem isWalled_symm (board : Board) (a b : Cell) : board.isWalled a b = board.isWalled b a := by
  unfold isWalled
  exact decide_eq_decide.mpr or_comm

theorem adjacent_iff (fixed : kind.Fixed) : board.adjacent a b kind = .ok true ↔
    (board.contains a = true ∧ board.contains b = true) ∧ kind.Near a b ∧
      (kind = .walled → board.isWalled a b = false) := by
  unfold adjacent
  by_cases inside : (board.contains a && board.contains b) = true
  · rw [if_pos inside]
    have inside := Bool.and_eq_true_iff.mp inside
    cases kind with
    | side | corner | around =>
      refine ⟨fun touches => ⟨inside, (Adjacency.near_of_touches touches).mp rfl, fun no => ?_⟩,
        fun holds => Adjacency.touches_of_near holds.2.1⟩
      cases no
    | walled =>
      apply Iff.intro
      · intro adjacent
        obtain ⟨answer, touches, open_⟩ := Outcome.bind_eq_ok.mp adjacent
        have both := Bool.and_eq_true_iff.mp (Outcome.pure_eq_ok.mp open_)
        exact ⟨inside, (Adjacency.near_of_touches touches).mp both.1, fun _ => by simpa using both.2⟩
      · intro holds
        change (Adjacency.touches .walled a b >>= _) = _
        rw [Outcome.bind_of_ok (Adjacency.touches_of_near holds.2.1), holds.2.2 rfl]
        rfl
    | path => exact absurd rfl fixed.1
    | directedPath => exact absurd rfl fixed.2
  · rw [if_neg inside]
    refine ⟨fun no => ?_, fun holds => absurd (Bool.and_eq_true_iff.mpr holds.1) inside⟩
    cases no

theorem adjacent_symm (fixed : kind.Fixed) (adjacent : board.adjacent a b kind = .ok true) :
    board.adjacent b a kind = .ok true := by
  rw [adjacent_iff fixed] at *
  rw [isWalled_symm board b a]
  exact ⟨adjacent.1.symm, adjacent.2.1.symm, adjacent.2.2⟩

theorem exists_adjacent (board : Board) (fixed : kind.Fixed)
    (fits : (a.row.val - b.row.val).natAbs + (a.col.val - b.col.val).natAbs ≤ 2147483647) :
    ∃ answer, board.adjacent a b kind = .ok answer := by
  unfold adjacent
  by_cases inside : (board.contains a && board.contains b) = true
  · rw [if_pos inside]
    obtain ⟨answer, touches⟩ := Adjacency.exists_touches kind fits
    cases kind with
    | side | corner | around => exact ⟨answer, touches⟩
    | walled => exact ⟨answer && !board.isWalled a b, Outcome.bind_of_ok touches _⟩
    | path => exact absurd rfl fixed.1
    | directedPath => exact absurd rfl fixed.2
  · rw [if_neg inside]
    exact ⟨false, rfl⟩

theorem adjacent_refusedOnly (fixed : kind.Fixed) (a b : Cell) :
    Outcome.RefusedOnly Error.IsOverflow (board.adjacent a b kind) := by
  unfold adjacent
  split
  · cases kind with
    | side | corner | around => exact Adjacency.touches_refusedOnly _ a b
    | walled => exact .bind (Adjacency.touches_refusedOnly .walled a b) fun _ _ => .of_ok _
    | path => exact absurd rfl fixed.1
    | directedPath => exact absurd rfl fixed.2
  · exact .of_ok _

def Linked (board : Board) (kind : Adjacency) (a b : Cell) : Prop :=
  board.isShaded a = true ∧ board.isShaded b = true ∧ board.adjacent a b kind = .ok true

/-- Shaded neighbors, one beside the other, lead from the first cell to the second. -/
def Joined (board : Board) (kind : Adjacency) : Cell → Cell → Prop :=
  Relation.ReflTransGen (board.Linked kind)

theorem Linked.symm (fixed : kind.Fixed) (linked : board.Linked kind a b) : board.Linked kind b a :=
  ⟨linked.2.1, linked.1, adjacent_symm fixed linked.2.2⟩

theorem Joined.symm (fixed : kind.Fixed) (joined : board.Joined kind a b) : board.Joined kind b a := by
  induction joined with
  | refl => exact .refl
  | tail _ linked ih => exact .head (linked.symm fixed) ih

theorem Joined.isShaded (joined : board.Joined kind a b) (shaded : board.isShaded a = true) :
    board.isShaded b = true := by
  induction joined with
  | refl => exact shaded
  | tail _ linked _ => exact linked.2.1

/-- A wall stands between two neighbors among the cells. -/
def Parted (board : Board) (cells : List Cell) : Prop :=
  ∃ a ∈ cells, ∃ b ∈ cells, Adjacency.side.Near a b ∧ board.isWalled a b = true

instance (board : Board) (cells : List Cell) : Decidable (board.Parted cells) :=
  inferInstanceAs (Decidable (∃ a ∈ cells, ∃ b ∈ cells, _ ∧ _))

theorem small_of_mem_surroundings : ∀ offset ∈ Cell.surroundings,
    offset.row.val.natAbs ≤ 1 ∧ offset.col.val.natAbs ≤ 1 := by decide

theorem offset_mem_surroundings (side : Side) : side.offset ∈ Cell.surroundings := by
  cases side <;> decide

theorem mem_surroundings_of_close (near : kind.Near a b) : ∃ offset ∈ Cell.surroundings,
    a.shift offset = .ok b := by
  have all : ∀ down ∈ [(-1 : Int8), 0, 1], ∀ along ∈ [(-1 : Int8), 0, 1],
      ¬ (down = 0 ∧ along = 0) → Cell.of down along ∈ Cell.surroundings := by decide +kernel
  have pick (number : Int) (small : number.natAbs ≤ 1) :
      ∃ value ∈ [(-1 : Int8), 0, 1], (Coord.of value).val = number := by
    rcases (by omega : number = -1 ∨ number = 0 ∨ number = 1) with rfl | rfl | rfl
    · exact ⟨-1, by decide, rfl⟩
    · exact ⟨0, by decide, rfl⟩
    · exact ⟨1, by decide, rfl⟩
  have close := near.close
  obtain ⟨down, inDown, rows⟩ := pick (b.row.val - a.row.val) (by omega)
  obtain ⟨along, inAlong, cols⟩ := pick (b.col.val - a.col.val) (by omega)
  refine ⟨Cell.of down along, all down inDown along inAlong ?_, ?_⟩
  · intro zero
    rw [zero.1] at rows
    rw [zero.2] at cols
    have still : b.row.val - a.row.val = 0 ∧ b.col.val - a.col.val = 0 := ⟨rows.symm, cols.symm⟩
    cases kind <;> simp only [Adjacency.Near] at near <;> omega
  · rw [Cell.shift_eq_ok]
    change b.row.val = a.row.val + (Coord.of down).val ∧ b.col.val = a.col.val + (Coord.of along).val
    omega

theorem Bounded.exists_step (bounded : board.Bounded) (inside : board.contains cell = true)
    {offset : Cell} (around : offset ∈ Cell.surroundings) : ∃ next, cell.shift offset = .ok next := by
  have bounds := contains_iff.mp inside
  have small := small_of_mem_surroundings offset around
  have rows := bounded.1
  have cols := bounded.2
  rw [Cell.exists_shift_iff]
  omega

private theorem linksAlong_cons_eq_ok {offset : Cell} {rest found : List Cell} :
    board.linksAlong kind cell (offset :: rest) = .ok found ↔ ∃ target linked others,
      cell.shift offset = .ok target ∧
      (if board.isShaded target then board.adjacent cell target kind else pure false) = .ok linked ∧
      board.linksAlong kind cell rest = .ok others ∧ (if linked then target :: others else others) = found := by
  rw [linksAlong, Outcome.bind_eq_ok]
  refine exists_congr fun target => ?_
  split <;> simp only [Outcome.bind_eq_ok, Outcome.pure_eq_ok, exists_and_left]

/-- What is linked along some offsets are the shaded neighbors there. -/
theorem mem_linksAlong {offsets found : List Cell} (ended : board.linksAlong kind cell offsets = .ok found) :
    next ∈ found ↔ (∃ offset ∈ offsets, cell.shift offset = .ok next) ∧ board.isShaded next = true ∧
      board.adjacent cell next kind = .ok true := by
  induction offsets generalizing found with
  | nil =>
    cases ended
    simp
  | cons offset rest ih =>
    obtain ⟨target, linked, others, stepped, decided, foundRest, rfl⟩ := linksAlong_cons_eq_ok.mp ended
    have step_iff : (∃ step ∈ offset :: rest, cell.shift step = .ok next) ↔
        next = target ∨ ∃ step ∈ rest, cell.shift step = .ok next := by
      simp only [List.mem_cons, exists_eq_or_imp, stepped, Except.ok.injEq]
      exact or_congr_left eq_comm
    have linked_iff : linked = true ↔ board.isShaded target = true ∧ board.adjacent cell target kind = .ok true := by
      rcases Outcome.ite_eq_ok.mp decided with ⟨shaded, answered⟩ | ⟨unshaded, answered⟩
      · simp [shaded, answered]
      · have same := Outcome.pure_eq_ok.mp answered
        simp [unshaded, ← same]
    rw [step_iff, or_and_right, ← ih foundRest]
    by_cases chosen : linked = true
    · rw [if_pos chosen, List.mem_cons]
      refine or_congr_left ⟨fun same => ⟨same, same ▸ linked_iff.mp chosen⟩, And.left⟩
    · rw [if_neg chosen]
      refine ⟨.inr, fun either => either.resolve_left fun holds => chosen ?_⟩
      obtain ⟨rfl, holds⟩ := holds
      exact linked_iff.mpr holds

private theorem exists_linksAlong (bounded : board.Bounded) (fixed : kind.Fixed)
    (inside : board.contains cell = true) (offsets : List Cell) (around : offsets ⊆ Cell.surroundings) :
    ∃ found, board.linksAlong kind cell offsets = .ok found := by
  induction offsets with
  | nil => exact ⟨[], rfl⟩
  | cons offset rest ih =>
    obtain ⟨others, found⟩ := ih fun _ member => around (List.mem_cons_of_mem _ member)
    have here := around List.mem_cons_self
    obtain ⟨target, stepped⟩ := bounded.exists_step inside here
    have small := small_of_mem_surroundings offset here
    have moved := Cell.shift_eq_ok.mp stepped
    obtain ⟨answer, decided⟩ := board.exists_adjacent (a := cell) (b := target) fixed (by omega)
    obtain ⟨linked, chosen⟩ : ∃ linked, (if board.isShaded target then board.adjacent cell target kind
        else pure false) = .ok linked := by
      split
      · exact ⟨answer, decided⟩
      · exact ⟨false, rfl⟩
    exact ⟨_, linksAlong_cons_eq_ok.mpr ⟨target, linked, others, stepped, chosen, found, rfl⟩⟩

/-- The graph has a node for each shaded cell, and its links are those of the board. -/
structure GraphOf (board : Board) (kind : Adjacency) (graph : List (Cell × List Cell)) : Prop where
  nodes : graph.map Prod.fst = board.shadedCells
  links : ∀ cell next, next ∈ links graph cell ↔ board.Linked kind cell next

private theorem lookup_of_forall₂ (property : Cell → List Cell → Prop) {cells : List Cell}
    {graph : List (Cell × List Cell)}
    (listed : List.Forall₂ (fun cell node => node.1 = cell ∧ property cell node.2) cells graph) :
    graph.map Prod.fst = cells ∧ ∀ cell,
      (cell ∈ cells → ∃ found, graph.lookup cell = some found ∧ property cell found) ∧
      (cell ∉ cells → graph.lookup cell = none) := by
  induction listed with
  | nil => simp
  | @cons first node cells graph head tail ih =>
    obtain ⟨key, found⟩ := node
    obtain ⟨rfl, holds⟩ := head
    refine ⟨by rw [List.map_cons, ih.1], fun cell => ?_⟩
    rw [List.lookup_cons]
    by_cases same : cell = key
    · subst same
      refine ⟨fun _ => ⟨found, by simp, holds⟩, fun outside => absurd List.mem_cons_self outside⟩
    · have differs : (cell == key) = false := by simpa using same
      rw [differs]
      refine ⟨fun member => (ih.2 cell).1 ?_, fun outside => (ih.2 cell).2 ?_⟩
      · exact (List.mem_cons.mp member).resolve_left same
      · exact fun member => outside (List.mem_cons_of_mem _ member)

/-- A graph that is built is the graph of the board. It is not built where a shaded cell has no neighbor
beyond it, for want of a coordinate. -/
theorem GraphOf.of_graph (fixed : kind.Fixed) {graph : List (Cell × List Cell)}
    (built : board.graph kind = .ok graph) : GraphOf board kind graph := by
  have listed : List.Forall₂ (fun cell node => node.1 = cell ∧ ∀ next, next ∈ node.2 ↔
      board.isShaded next = true ∧ board.adjacent cell next kind = .ok true) board.shadedCells graph := by
    refine (Outcome.mapM_eq_ok.mp built).imp ?_
    intro cell node linked
    obtain ⟨found, ended, same⟩ := Outcome.bind_eq_ok.mp linked
    cases same
    refine ⟨rfl, fun next => ?_⟩
    rw [mem_linksAlong ended]
    refine ⟨And.right, fun holds => ⟨?_, holds⟩⟩
    exact mem_surroundings_of_close ((adjacent_iff fixed).mp holds.2).2.1
  obtain ⟨nodes, looked⟩ := lookup_of_forall₂ (fun cell found => ∀ next, next ∈ found ↔
    board.isShaded next = true ∧ board.adjacent cell next kind = .ok true) listed
  refine ⟨nodes, fun cell next => ?_⟩
  unfold Board.links
  by_cases shaded : board.isShaded cell = true
  · obtain ⟨found, here, exact⟩ := (looked cell).1 (mem_shadedCells.mpr shaded)
    rw [here, Option.getD_some, exact]
    exact ⟨fun holds => ⟨shaded, holds⟩, And.right⟩
  · rw [(looked cell).2 (fun member => shaded (mem_shadedCells.mp member))]
    refine ⟨fun none => absurd none List.not_mem_nil, fun linked => absurd linked.1 shaded⟩

theorem Bounded.graph_ok (bounded : board.Bounded) (fixed : kind.Fixed) :
    ∃ graph, board.graph kind = .ok graph ∧ GraphOf board kind graph := by
  obtain ⟨graph, built⟩ : ∃ graph, board.graph kind = .ok graph := by
    refine Outcome.exists_mapM_ok fun cell member => ?_
    obtain ⟨found, ended⟩ := exists_linksAlong bounded fixed
      (contains_of_isShaded (mem_shadedCells.mp member)) _ (List.Subset.refl _)
    exact ⟨(cell, found), Outcome.bind_of_ok ended _⟩
  exact ⟨graph, built, .of_graph fixed built⟩

namespace GraphOf

variable {graph : List (Cell × List Cell)}

theorem reaches_iff (graphOf : GraphOf board kind graph) :
    Flood.Reaches (Board.links graph) a b ↔ board.Joined kind a b := by
  apply Iff.intro
  · intro reaches
    induction reaches with
    | start => exact .refl
    | step _ linked ih => exact ih.tail ((graphOf.links _ _).mp linked)
  · intro joined
    induction joined with
    | refl => exact .start
    | tail _ linked ih => exact ih.step ((graphOf.links _ _).mpr linked)

theorem closed (graphOf : GraphOf board kind graph) :
    ∀ node ∈ graph.map Prod.fst, ∀ next ∈ Board.links graph node, next ∈ graph.map Prod.fst := by
  intro node _ next linked
  rw [graphOf.nodes, mem_shadedCells]
  exact ((graphOf.links node next).mp linked).2.1

theorem mem_joinedTo (graphOf : GraphOf board kind graph) {sources : List Cell} :
    cell ∈ joinedTo graph sources ↔
      ∃ source ∈ sources, board.isShaded source = true ∧ board.Joined kind source cell := by
  rw [joinedTo, Cell.mem_sort, Flood.mem_gather graphOf.closed]
  simp only [graphOf.reaches_iff, graphOf.nodes, mem_shadedCells]

end GraphOf

theorem mem_reachable (fixed : kind.Fixed) {source : Cell} {found : List Cell}
    (ended : board.reachable source kind = .ok found) :
    cell ∈ found ↔ board.isShaded source = true ∧ board.Joined kind source cell := by
  obtain ⟨graph, built, same⟩ := Outcome.bind_eq_ok.mp ended
  cases same
  rw [(GraphOf.of_graph fixed built).mem_joinedTo]
  simp only [List.mem_singleton, exists_eq_left]

theorem reachable_increasing {source : Cell} {found : List Cell}
    (ended : board.reachable source kind = .ok found) : Cell.Increasing found := by
  obtain ⟨_, _, same⟩ := Outcome.bind_eq_ok.mp ended
  exact Outcome.pure_eq_ok.mp same ▸ Cell.sort_increasing _

theorem exists_reachable {groups : List (List Cell)} (grouped : board.components kind = .ok groups)
    (source : Cell) : ∃ found, board.reachable source kind = .ok found := by
  obtain ⟨graph, built, _⟩ := Outcome.bind_eq_ok.mp grouped
  exact ⟨_, Outcome.bind_of_ok built _⟩

theorem Bounded.reachable_ok (bounded : board.Bounded) (fixed : kind.Fixed) (source : Cell) :
    ∃ found, board.reachable source kind = .ok found ∧ ∀ cell, cell ∈ found ↔
      board.isShaded source = true ∧ board.Joined kind source cell := by
  obtain ⟨graph, built, _⟩ := bounded.graph_ok fixed
  have ended : board.reachable source kind = .ok (joinedTo graph [source]) := Outcome.bind_of_ok built _
  exact ⟨_, ended, fun _ => mem_reachable fixed ended⟩

/-- The cells are a class of joined cells, in increasing order. -/
structure IsGroup (board : Board) (kind : Adjacency) (cells : List Cell) : Prop where
  increasing : Cell.Increasing cells
  inhabited : cells ≠ []
  shaded : ∀ cell ∈ cells, board.isShaded cell = true
  joined : ∀ a ∈ cells, ∀ b, b ∈ cells ↔ board.Joined kind a b

theorem IsGroup.contains {group : List Cell} {cell : Cell} (isGroup : board.IsGroup kind group)
    (inside : cell ∈ group) : board.contains cell = true :=
  contains_of_isShaded (isGroup.shaded cell inside)

theorem IsGroup.of_components (fixed : kind.Fixed) {groups : List (List Cell)}
    (grouped : board.components kind = .ok groups) : (∀ group ∈ groups, board.IsGroup kind group) ∧
      ∀ cell, board.isShaded cell = true → ∃ group ∈ groups, cell ∈ group := by
  obtain ⟨graph, built, same⟩ := Outcome.bind_eq_ok.mp grouped
  cases same
  have graphOf := GraphOf.of_graph fixed built
  have twoWay : ∀ a b, b ∈ Board.links graph a → a ∈ Board.links graph b := by
    intro a b linked
    rw [graphOf.links] at *
    exact linked.symm fixed
  obtain ⟨classes, covered⟩ := Flood.groups_classes twoWay _ graphOf.closed
  refine ⟨fun sorted member => ?_, fun cell shaded => ?_⟩
  · obtain ⟨group, inside, rfl⟩ := List.mem_map.mp member
    obtain ⟨first, node, exact⟩ := classes group inside
    rw [graphOf.nodes, mem_shadedCells] at node
    have mem_iff (cell : Cell) : cell ∈ Cell.sort group ↔ board.Joined kind first cell := by
      rw [Cell.mem_sort, exact, graphOf.reaches_iff]
    refine ⟨Cell.sort_increasing group, List.ne_nil_of_mem ((mem_iff first).mpr .refl), fun cell inGroup => ?_,
      fun a inA b => ?_⟩
    · exact ((mem_iff cell).mp inGroup).isShaded node
    · have toA := (mem_iff a).mp inA
      rw [mem_iff]
      exact ⟨(toA.symm fixed).trans, toA.trans⟩
  · obtain ⟨group, inside, holds⟩ := covered cell (by rwa [graphOf.nodes, mem_shadedCells])
    exact ⟨Cell.sort group, List.mem_map_of_mem inside, Cell.mem_sort.mpr holds⟩

theorem Bounded.exists_components (bounded : board.Bounded) (fixed : kind.Fixed) :
    ∃ groups, board.components kind = .ok groups := by
  obtain ⟨graph, built, _⟩ := bounded.graph_ok fixed
  exact ⟨_, Outcome.bind_of_ok built _⟩

/-- The groups are found, each in increasing order, and they are the classes of joined cells. -/
theorem Bounded.components_ok (bounded : board.Bounded) (fixed : kind.Fixed) :
    ∃ groups, board.components kind = .ok groups ∧
      (∀ group ∈ groups, Cell.Increasing group ∧
        ∃ first, board.isShaded first = true ∧ ∀ cell, cell ∈ group ↔ board.Joined kind first cell) ∧
      ∀ cell, board.isShaded cell = true → ∃ group ∈ groups, cell ∈ group := by
  obtain ⟨groups, grouped⟩ := bounded.exists_components fixed
  obtain ⟨classes, covered⟩ := IsGroup.of_components fixed grouped
  refine ⟨groups, grouped, fun group member => ?_, covered⟩
  have isGroup := classes group member
  obtain ⟨first, rest, rfl⟩ := List.exists_cons_of_ne_nil isGroup.inhabited
  exact ⟨isGroup.increasing, first, isGroup.shaded first List.mem_cons_self,
    isGroup.joined first List.mem_cons_self⟩

/-- The groups come in the order of their least cells. -/
theorem components_ordered (fixed : kind.Fixed) {groups : List (List Cell)}
    (grouped : board.components kind = .ok groups) : groups.Pairwise fun group later =>
      ∀ first ∈ group.head?, ∀ cell ∈ later, first < cell := by
  obtain ⟨graph, built, ended⟩ := Outcome.bind_eq_ok.mp grouped
  cases ended
  have increasing : Cell.Increasing (graph.map Prod.fst) :=
    (GraphOf.of_graph fixed built).nodes ▸ shadedCells_increasing board
  obtain ⟨starts, ordered⟩ := Flood.groups_ordered increasing
  rw [List.pairwise_map]
  refine ordered.imp_of_mem fun {group later} member _ before first isFirst cell inLater => ?_
  obtain ⟨node, rest, same, after⟩ := starts group member
  subst same
  have least : (Cell.sort (node :: rest)).head? = some node := by
    refine (Cell.sort_increasing _).head?_eq (Cell.mem_sort.mpr List.mem_cons_self) fun other inGroup => ?_
    rcases List.mem_cons.mp (Cell.mem_sort.mp inGroup) with rfl | inRest
    · exact Cell.not_lt_self other
    · exact Cell.lt_asymm (after other inRest)
  rw [← Option.some.inj (least.symm.trans isFirst)]
  exact before node rfl cell (Cell.mem_sort.mp inLater)

end Board

end GridPuzzle
