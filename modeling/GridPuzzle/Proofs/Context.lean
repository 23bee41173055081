import GridPuzzle.Context
import GridPuzzle.Proofs.Template.Piece

/-!
Contexts as transparent caches. Whatever has been asked before, an answer is the one that a new context gives, and what
is remembered is right.
-/
namespace GridPuzzle.Context

variable {context : Context} {asked : List (Polyomino × Symmetry)}

/-- The shape and the symmetry whose orientations a request needs. Registered cells that make no shape need none. -/
def Request.asks : Request → Option (Polyomino × Symmetry)
  | .piece _ => none
  | .piecesOfSize _ => none
  | .orientations shape symmetry => some (shape, symmetry)
  | .register _ cells =>
    match Polyomino.ofCells cells with
    | .ok shape => some (shape, .full)
    | .error _ => none

/-- The context has answered requests that needed these orientations. -/
structure Answered (context : Context) (asked : List (Polyomino × Symmetry)) : Prop where
  catalog : ∀ pieces, context.catalog = some pieces → pieces = Catalog.pieces
  memo : context.memo.Remembers asked

theorem answered_new : new.Answered [] := ⟨nofun, Memo.remembers_empty⟩

namespace Answered

theorem pieces_eq (answered : context.Answered asked) : context.pieces.1 = Catalog.pieces := by
  unfold pieces
  cases known : context.catalog with
  | none => rfl
  | some table => exact answered.catalog table known

theorem pieces (answered : context.Answered asked) : context.pieces.2.Answered asked := by
  unfold Context.pieces
  cases known : context.catalog with
  | none => exact ⟨fun _ same => (Option.some.inj same).symm, answered.memo⟩
  | some table => exact answered

theorem answer_eq (answered : context.Answered asked) (request : Request) :
    (context.answer request).1 = (new.answer request).1 := by
  cases request with
  | piece name => exact congrArg (fun table => Answer.piece (table.lookup name)) answered.pieces_eq
  | piecesOfSize size =>
    exact congrArg (fun table : List (String × Polyomino) => Answer.pieces (table.filter (·.2.size = size)))
      answered.pieces_eq
  | orientations shape symmetry =>
    have known := answered.memo.sound.orientations_eq shape symmetry
    exact congrArg Answer.orientations (known.trans (Memo.sound_empty.orientations_eq shape symmetry).symm)
  | register entry cells =>
    have known := entry.register_eq cells answered.memo.sound
    exact congrArg Answer.program (known.trans (entry.register_eq cells Memo.sound_empty).symm)

theorem answer (answered : context.Answered asked) (request : Request) :
    (context.answer request).2.Answered (asked ++ request.asks.toList) := by
  cases request with
  | piece name => exact (List.append_nil asked).symm ▸ answered.pieces
  | piecesOfSize size => exact (List.append_nil asked).symm ▸ answered.pieces
  | orientations shape symmetry => exact ⟨answered.catalog, answered.memo.orientations shape symmetry⟩
  | register entry cells =>
    suffices kept : (entry.register cells context.memo).2.Remembers
        (asked ++ (Request.register entry cells).asks.toList) from ⟨answered.catalog, kept⟩
    cases made : Polyomino.ofCells cells with
    | error error =>
      simp only [Template.Registration.register, Request.asks, made, Option.toList_none, List.append_nil]
      exact answered.memo
    | ok shape =>
      simp only [Template.Registration.register, Request.asks, made]
      exact answered.memo.orientations shape .full

theorem run (answered : context.Answered asked) (requests : List Request) :
    (context.run requests).1 = requests.map (fun request => (new.answer request).1) ∧
      (context.run requests).2.Answered (asked ++ requests.filterMap Request.asks) := by
  induction requests generalizing context asked with
  | nil => exact ⟨rfl, (List.append_nil asked).symm ▸ answered⟩
  | cons request rest ih =>
    obtain ⟨answers, last⟩ := ih (answered.answer request)
    have listed : (request :: rest).filterMap Request.asks =
        request.asks.toList ++ rest.filterMap Request.asks := by
      rw [List.filterMap_cons]
      cases request.asks <;> rfl
    rw [listed, ← List.append_assoc]
    exact ⟨congrArg₂ List.cons (answered.answer_eq request) answers, last⟩

end Answered

/-- Requests to one context, in any number and order, are answered as by a new context each. Whatever is remembered in
the end are the orientations of its shape by its symmetry, and there are as many entries as different shapes with a
symmetry that were asked for and whose orientations fit. -/
theorem run_transparent (requests : List Request) :
    (new.run requests).1 = requests.map (fun request => (new.answer request).1) ∧
    (∀ entry ∈ (new.run requests).2.memo.entries, entry.1.1.orientations entry.1.2 = .ok entry.2) ∧
    (new.run requests).2.cached =
      ((requests.filterMap Request.asks).toFinset.filter fun key => (key.1.orientations key.2).isOk).card := by
  obtain ⟨answers, last⟩ := answered_new.run requests
  exact ⟨answers, last.memo.exact, last.memo.size_eq⟩

/-- Two cells in rows next to each other, too far apart in columns for a quarter turn. -/
def tooWide : Polyomino := ⟨[.of 0 0, ⟨.of 1, ⟨-2147483648, by decide⟩⟩]⟩

/-- What does not fit is not remembered, although it has been asked for. -/
theorem cached_ne_asked : Polyomino.ofCells tooWide.cells = .ok tooWide ∧
    (new.run [.orientations tooWide .full]).2.cached ≠
      (([.orientations tooWide .full] : List Request).filterMap Request.asks).toFinset.card := by decide

end GridPuzzle.Context
