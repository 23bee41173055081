import GridPuzzle.Proofs.Rules.Compose
import GridPuzzle.Proofs.Rules.Count
import GridPuzzle.Proofs.Template.Detection

/-!
Counts of registered shapes. The tuples of a count are the occurrences that a search of the board finds, each
once, so that the constraint is broken exactly if their number misses the target.
-/
namespace GridPuzzle

namespace Template.Piece

variable {name : String} {color : Color} {board : Board} {pieces : List Piece} {found : Piece → List (Cell × Nat)}
  {world : World} {id : Option Int} {target : Target}

/-- How many occurrences were found of all shapes, or of the one with the number. -/
def tally (found : Piece → List (Cell × Nat)) (pieces : List Piece) : Option Int → Nat
  | none => (pieces.map fun piece => (found piece).length).sum
  | some id => match pieces.find? (·.id = id) with
    | some piece => (found piece).length
    | none => 0

def chosen (pieces : List Piece) : Option Int → List Piece
  | none => pieces
  | some id => (pieces.find? (·.id = id)).toList

theorem tally_eq : tally found pieces id = ((chosen pieces id).map fun piece => (found piece).length).sum := by
  cases id with
  | none => rfl
  | some id =>
    rw [tally, chosen]
    cases pieces.find? (·.id = id) with
    | none => rfl
    | some piece => exact List.sum_singleton.symm

section Distinct

variable (distinct : (pieces.map Piece.id).Nodup)
include distinct

private theorem mem_chosen {piece : Piece} :
    piece ∈ chosen pieces id ↔ piece ∈ pieces ∧ ∀ number, id = some number → piece.id = number := by
  cases id with
  | none => simp [chosen]
  | some number =>
    simp only [chosen, Option.mem_toList, Option.some.injEq, forall_eq']
    constructor
    · intro first
      exact ⟨List.mem_of_find?_eq_some first, by simpa using List.find?_some first⟩
    · intro listed
      obtain ⟨member, same⟩ := listed
      cases first : pieces.find? (·.id = number) with
      | none => exact absurd (decide_eq_true same) (List.find?_eq_none.mp first piece member)
      | some other =>
        have otherSame : other.id = number := by simpa using List.find?_some first
        rw [List.inj_on_of_nodup_map distinct (List.mem_of_find?_eq_some first) member
          (otherSame.trans same.symm)]

private theorem chosen_apart :
    (chosen pieces id).Pairwise fun first second => id = none ∧ first.id ≠ second.id := by
  cases id with
  | none => exact (List.pairwise_map.mp distinct).imp fun other => ⟨rfl, other⟩
  | some number =>
    rw [chosen]
    cases pieces.find? (·.id = number) <;> simp

end Distinct

/-- One tuple for each fact of the detector. The number of the shape stands in it only if it is left open. -/
def counted (name : String) (color : Color) : Option Int → Element
  | none => ⟨[.var "R" 0, .var "C" 0, .var "I" 0, .var "V" 0].map .term,
      [.holds ⟨detector name color .grid, [.var "R" 0, .var "C" 0, .var "I" 0, .var "V" 0]⟩]⟩
  | some id => ⟨[.var "R" 0, .var "C" 0, .var "V" 0].map .term,
      [.holds ⟨detector name color .grid, [.var "R" 0, .var "C" 0, .int id, .var "V" 0]⟩]⟩

theorem countPieces_eq : countPieces target name id color .grid =
    ⟨[.constraint [unmet target (counted name color id)]]⟩ := by
  cases id <;> rfl

def tuple (id : Option Int) (row col number index : Value) : List Value :=
  match id with
  | none => [row, col, number, index]
  | some _ => [row, col, index]

private theorem yields_counted {binding : Binding} {values : List Value} :
    (counted name color id).Yields world [] binding values ↔ ∃ row col number index,
      world ⟨detector name color .grid, [row, col, number, index]⟩ ∧
        (∀ own, id = some own → number = .num own) ∧ values = tuple id row col number index := by
  have all (inner : Binding) (names : List String) :
      StandAll inner (names.map (.var · 0)) (names.map inner) :=
    List.forall₂_map_left_iff.mpr (List.forall₂_map_right_iff.mpr (List.forall₂_same.mpr fun name _ =>
      Term.stands_var name))
  let binds (row col number index : Value) : Binding := fun name =>
    if name = "R" then row else if name = "C" then col else if name = "I" then number else index
  cases id with
  | none =>
    refine (Element.yields_iff (all · ["R", "C", "I", "V"]) (all · ["R", "C", "I", "V"])).trans ?_
    constructor
    · intro yields
      obtain ⟨inner, holds, same⟩ := yields
      exact ⟨_, _, _, _, holds, nofun, same⟩
    · intro found
      obtain ⟨row, col, number, index, holds, _, same⟩ := found
      exact ⟨binds row col number index, holds, same⟩
  | some own =>
    have asked (inner : Binding) : StandAll inner [.var "R" 0, .var "C" 0, .int own, .var "V" 0]
        [inner "R", inner "C", .num own, inner "V"] :=
      .cons (Term.stands_var "R") (.cons (Term.stands_var "C") (.cons (Term.stands_int own) (all inner ["V"])))
    refine (Element.yields_iff asked (all · ["R", "C", "V"])).trans ?_
    constructor
    · intro yields
      obtain ⟨inner, holds, same⟩ := yields
      exact ⟨_, _, _, _, holds, fun _ isOwn => by rw [Option.some.inj isOwn], same⟩
    · intro found
      obtain ⟨row, col, number, index, holds, isOwn, same⟩ := found
      rw [isOwn own rfl] at holds
      exact ⟨binds row col number index, holds, same⟩

def tuples (found : Piece → List (Cell × Nat)) (pieces : List Piece) (id : Option Int) : List (List Value) :=
  (chosen pieces id).flatMap fun piece => (found piece).map fun occurrence =>
    tuple id (.num occurrence.1.row.val) (.num occurrence.1.col.val) (.num piece.id) (.num occurrence.2)

private theorem tuple_injective (piece : Piece) : Function.Injective fun occurrence : Cell × Nat =>
    tuple id (.num occurrence.1.row.val) (.num occurrence.1.col.val) (.num piece.id) (.num occurrence.2) := by
  intro first second same
  obtain ⟨root, index⟩ := first
  obtain ⟨root', index'⟩ := second
  have parts : root.row.val = root'.row.val ∧ root.col.val = root'.col.val ∧ index = index' := by
    cases id <;> simpa [tuple] using same
  rw [Cell.ext parts.1 parts.2.1, parts.2.2]

private theorem length_tuples : (tuples found pieces id).length = tally found pieces id := by
  simp [tuples, tally_eq, List.length_flatMap]

section Distinct

variable (distinct : (pieces.map Piece.id).Nodup)
include distinct

private theorem tuples_nodup (once : ∀ piece ∈ pieces, (found piece).Nodup) : (tuples found pieces id).Nodup := by
  rw [tuples, List.nodup_flatMap]
  constructor
  · intro piece member
    exact (once piece ((mem_chosen distinct).mp member).1).map (tuple_injective piece)
  · refine (chosen_apart distinct).imp fun apart => ?_
    obtain ⟨rfl, other⟩ := apart
    intro values inFirst inSecond
    obtain ⟨_, _, rfl⟩ := List.mem_map.mp inFirst
    obtain ⟨_, _, same⟩ := List.mem_map.mp inSecond
    simp only [tuple, List.cons.injEq, Value.num.injEq] at same
    exact other same.2.2.1.symm

/-- The tuples are those of the facts of the detector. -/
private theorem mem_tuples (detected : ∀ fact : Fact, fact.relation = detector name color .grid →
      (world fact ↔ ∃ piece ∈ pieces, ∃ root index, (root, index) ∈ found piece ∧
        fact = .placed (detector name color .grid) root.row.val root.col.val piece.id index))
    (binding : Binding) (values : List Value) :
    values ∈ tuples found pieces id ↔ (counted name color id).Yields world [] binding values := by
  rw [yields_counted]
  simp only [tuples, List.mem_flatMap, List.mem_map]
  constructor
  · intro listed
    obtain ⟨piece, isChosen, ⟨root, index⟩, inFound, rfl⟩ := listed
    obtain ⟨member, isOwn⟩ := (mem_chosen distinct).mp isChosen
    exact ⟨_, _, _, _, (detected _ rfl).mpr ⟨piece, member, root, index, inFound, rfl⟩,
      fun own same => congrArg Value.num (isOwn own same), rfl⟩
  · intro yields
    obtain ⟨row, col, number, index, holds, isOwn, rfl⟩ := yields
    obtain ⟨piece, member, root, position, inFound, same⟩ := (detected _ rfl).mp holds
    cases same
    exact ⟨piece, (mem_chosen distinct).mpr ⟨member, fun own same => Value.num.inj (isOwn own same)⟩,
      (root, position), inFound, rfl⟩

end Distinct

/-- Shapes with different numbers are registered and their occurrences searched for on the board. With a count
of all of them, or of the one with a number, the rules have one model, and in it the count is broken exactly
if the number of occurrences found is not what the target asks for. -/
theorem countPieces_agree (board : Board) (name : String) (color : Color) (includeSelf : Adjacency → Bool)
    (pieces : List Piece) (memo : Memo) (program : Program) (found : Piece → List (Cell × Nat)) (target : Target)
    (id : Option Int) (sound : memo.Sound) (fixed : ∀ piece ∈ pieces, piece.kind.Fixed)
    (named : NamedApart color pieces) (distinct : (pieces.map Piece.id).Nodup)
    (built : (registerAll name color pieces memo).1 = .ok program)
    (searched : ∀ piece ∈ pieces, piece.occurrences (board.colored color) = .ok (found piece)) :
    (∃! world, (program ++ countPieces target name id color .grid).Model
      (pieceFacts board color pieces includeSelf) world) ∧
    ∀ world, (program ++ countPieces target name id color .grid).Model
        (pieceFacts board color pieces includeSelf) world →
      ((countPieces target name id color .grid).Violated world ↔ ¬ target.Admits (tally found pieces id)) := by
  have registered := mem_registerAll name color sound built
  have only : ∀ statement ∈ (countPieces target name id color .grid).statements, ∃ body,
      statement = .constraint body := by
    rw [countPieces_eq, List.forall_mem_singleton]
    exact ⟨_, rfl⟩
  simp only [Program.model_append_constraints only]
  refine ⟨(stratified registered).existsUnique_model _, fun world model => ?_⟩
  have once : ∀ piece ∈ pieces, (found piece).Nodup := fun piece member =>
    (occurrences_ordered (searched piece member)).nodup
  have detected (fact : Fact) (label : fact.relation = detector name color .grid) :=
    detector_iff searched (ruled_of_registerAll sound built) registered model fixed named label
  have met (binding : Binding) : (∀ literal ∈ [unmet target (counted name color id)],
      literal.Holds world [] binding) ↔ ¬ target.Admits (tally found pieces id) := by
    rw [List.forall_mem_singleton, unmet, Literal.count_holds_iff (tuples_nodup distinct once)
      (mem_tuples distinct detected binding), length_tuples, Target.forbidden_iff]
  rw [countPieces_eq, show [Statement.constraint [unmet target (counted name color id)]] =
    [[unmet target (counted name color id)]].map .constraint from rfl, Program.violated_constraints]
  simp only [List.mem_singleton, exists_eq_left]
  exact ⟨fun broken => broken.elim fun binding holds => (met binding).mp holds,
    fun misses => ⟨fun _ => .inf, (met _).mpr misses⟩⟩

theorem countPieces_agree_corner : ∃ program world,
    (registerAll "small" (.negated "black") [domino, single] .empty).1 = .ok program ∧
    (program ++ countPieces (.exactly 2) "small" none (.negated "black") .grid).Model
      (pieceFacts cornerBoard (.negated "black") [domino, single] fun _ => true) world ∧
    (countPieces (.exactly 2) "small" none (.negated "black") .grid).Violated world := by
  obtain ⟨program, built⟩ := exists_registerAll "small" (.negated "black") Memo.sound_empty corner_fits
  let found (piece : Piece) : List (Cell × Nat) := if piece.id = 2 then [(.of 0 0, 0)] else []
  have searched : ∀ piece ∈ [domino, single],
      piece.occurrences (cornerBoard.colored (.negated "black")) = .ok (found piece) := by
    rw [List.forall_mem_cons, List.forall_mem_singleton]
    exact corner_occurrences
  obtain ⟨⟨world, model, _⟩, counted⟩ := countPieces_agree cornerBoard "small" (.negated "black")
    (fun _ => true) [domino, single] .empty program found (.exactly 2) none Memo.sound_empty corner_fixed
    ⟨by decide, by decide⟩ (by decide) built searched
  exact ⟨program, world, built, model, (counted world model).mpr (by decide)⟩

end Template.Piece

end GridPuzzle
