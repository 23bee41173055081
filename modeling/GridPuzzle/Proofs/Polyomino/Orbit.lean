import Mathlib.Data.List.Nodup
import Mathlib.Data.List.Perm.Subperm
import Mathlib.Logic.Relation
import GridPuzzle.Proofs.Polyomino.Turn

/-!
Orientations of a shape. They are found without a refusal, each once, and are exactly the shapes to
which the moves of the symmetry lead.
-/
namespace GridPuzzle

/-- Moves of the symmetry, one after the other, make the second shape of the first. -/
def Symmetry.Leads (symmetry : Symmetry) : Polyomino → Polyomino → Prop :=
  Relation.ReflTransGen fun shape image => ∃ move ∈ symmetry.moves, move.apply shape = .ok image

namespace Polyomino

variable {symmetry : Symmetry} {shape image : Polyomino}

theorem Normal.of_leads (normal : shape.Normal) (narrow : shape.Narrow)
    (leads : symmetry.Leads shape image) :
    image.Normal ∧ image.Narrow ∧ ∃ orientation ∈ symmetry.turns, Turned orientation shape image := by
  induction leads with
  | refl => exact ⟨normal, narrow, .upright, symmetry.upright_mem_turns, .refl shape⟩
  | tail _ step ih =>
    obtain ⟨middleNormal, middleNarrow, orientation, member, turned⟩ := ih
    obtain ⟨move, allowed, applied⟩ := step
    obtain ⟨next, applied', nextNormal, nextNarrow, moved⟩ := middleNormal.apply_ok middleNarrow move
    rw [applied] at applied'
    cases applied'
    exact ⟨nextNormal, nextNarrow, _, symmetry.next_mem_turns move allowed orientation member,
      turned.next moved⟩

/-- Two shapes in the same orientation are equal, so there are no more shapes than orientations. -/
theorem Normal.length_le_order (normal : shape.Normal) (narrow : shape.Narrow) {found : List Polyomino}
    (distinct : found.Nodup) (led : ∀ image ∈ found, symmetry.Leads shape image) :
    found.length ≤ symmetry.order := by
  have turned : ∀ image ∈ found, ∃ orientation, orientation ∈ symmetry.turns ∧
      Turned orientation shape image := fun image member =>
    (normal.of_leads narrow (led image member)).2.2
  have : Nonempty Orientation := ⟨.upright⟩
  choose! orientation allowed turned using turned
  have injective : (found.map orientation).Nodup := by
    apply distinct.map_on
    intro first inside second inside' same
    refine (turned first inside).unique (same ▸ turned second inside') ?_ ?_
    · exact (normal.of_leads narrow (led first inside)).1
    · exact (normal.of_leads narrow (led second inside')).1
  have subset : found.map orientation ⊆ symmetry.turns := by
    intro _ member
    obtain ⟨image, inside, rfl⟩ := List.mem_map.mp member
    exact allowed image inside
  rw [← symmetry.length_turns, ← List.length_map orientation]
  exact (List.subperm_of_subset injective subset).length_le

private theorem nodup_eraseDups (shapes : List Polyomino) : shapes.eraseDups.Nodup := by
  induction length : shapes.length using Nat.strong_induction_on generalizing shapes with
  | _ bound ih =>
    cases shapes with
    | nil => exact List.nodup_nil
    | cons head rest =>
      rw [List.eraseDups_cons]
      refine List.nodup_cons.mpr ⟨by simp, ?_⟩
      have shorter := List.length_filter_le (fun other => !other == head) rest
      rw [List.length_cons] at length
      exact ih _ (by omega) _ rfl

/-- The shapes that have had their turn, whose images have all been found. -/
structure Explored (moves : List Move) (done found : List Polyomino) : Prop where
  distinct : found.Nodup
  closed : ∀ shape ∈ done, ∀ move ∈ moves, ∃ image ∈ found, move.apply shape = .ok image

private theorem Explored.turn {moves : List Move} {done found images : List Polyomino}
    (explored : Explored moves done found)
    (mapped : moves.mapM (·.apply shape) = .ok images) :
    Explored moves (done ++ [shape]) (found ++ (images.filter (· ∉ found)).eraseDups) := by
  have fresh (image : Polyomino) : image ∈ (images.filter (· ∉ found)).eraseDups ↔
      image ∈ images ∧ image ∉ found := by simp
  refine ⟨?_, ?_⟩
  · refine List.nodup_append'.mpr ⟨explored.distinct, nodup_eraseDups _, ?_⟩
    intro image old new
    exact ((fresh image).mp new).2 old
  · intro other member move allowed
    rcases List.mem_append.mp member with before | now
    · obtain ⟨image, inside, applied⟩ := explored.closed other before move allowed
      exact ⟨image, List.mem_append_left _ inside, applied⟩
    · rw [List.mem_singleton.mp now]
      obtain ⟨image, inside, applied⟩ :=
        Outcome.mem_of_forall₂ (Outcome.mapM_eq_ok.mp mapped).flip allowed
      refine ⟨image, ?_, applied⟩
      by_cases old : image ∈ found
      · exact List.mem_append_left _ old
      · exact List.mem_append_right _ ((fresh image).mpr ⟨inside, old⟩)

private theorem reached_images {moves : List Move} {reached : Polyomino → Prop} {images : List Polyomino}
    (total : ∀ move ∈ moves, ∃ image, move.apply shape = .ok image ∧ reached image)
    (mapped : moves.mapM (·.apply shape) = .ok images) : ∀ image ∈ images, reached image := by
  intro image member
  obtain ⟨move, allowed, applied⟩ := Outcome.mem_of_forall₂ (Outcome.mapM_eq_ok.mp mapped) member
  obtain ⟨image', applied', reached'⟩ := total move allowed
  cases applied.symm.trans applied'
  exact reached'

/-- As long as no list of distinct shapes is longer than the turns allow, exploring ends with all
shapes explored. -/
private theorem explore_ok {moves : List Move} {reached : Polyomino → Prop} {bound : Nat}
    (total : ∀ shape, reached shape → ∀ move ∈ moves, ∃ image, move.apply shape = .ok image ∧ reached image)
    (bounded : ∀ found : List Polyomino, found.Nodup → (∀ shape ∈ found, reached shape) → found.length ≤ bound)
    (turns : Nat) (done waiting : List Polyomino)
    (explored : Explored moves done (done ++ waiting))
    (inside : ∀ shape ∈ done ++ waiting, reached shape) (enough : bound ≤ done.length + turns) :
    ∃ result, explore moves turns waiting (done ++ waiting) = .ok result ∧
      done ++ waiting <+: result ∧ Explored moves result result ∧ ∀ shape ∈ result, reached shape := by
  induction turns generalizing done waiting with
  | zero =>
    have short := bounded _ explored.distinct inside
    rw [List.length_append] at short
    have none : waiting = [] := List.eq_nil_of_length_eq_zero (by omega)
    subst none
    rw [List.append_nil] at *
    exact ⟨done, by simp [explore], List.prefix_rfl, explored, inside⟩
  | succ turns ih =>
    cases waiting with
    | nil =>
      rw [List.append_nil] at *
      exact ⟨done, by simp [explore], List.prefix_rfl, explored, inside⟩
    | cons shape waiting =>
      have here := inside shape (by simp)
      obtain ⟨images, mapped⟩ := Outcome.exists_mapM_ok fun move allowed =>
        (total shape here move allowed).imp fun _ applied => applied.1
      have imagesReached := reached_images (total shape here) mapped
      have turned := explored.turn mapped
      set fresh := (images.filter (· ∉ done ++ shape :: waiting)).eraseDups with freshDef
      have regroup : done ++ shape :: waiting ++ fresh = (done ++ [shape]) ++ (waiting ++ fresh) := by simp
      rw [regroup] at turned
      obtain ⟨result, ended, grown, closed, all⟩ := ih (done ++ [shape]) (waiting ++ fresh) turned
        (by
          intro other member
          rw [← regroup] at member
          rcases List.mem_append.mp member with old | new
          · exact inside other old
          · rw [freshDef, List.mem_eraseDups] at new
            exact imagesReached other (List.mem_of_mem_filter new))
        (by simp; omega)
      refine ⟨result, ?_, ?_, closed, all⟩
      · rw [explore, Outcome.bind_of_ok mapped]
        change explore moves turns (waiting ++ fresh) (done ++ shape :: waiting ++ fresh) = _
        rw [regroup]
        exact ended
      · rw [← regroup] at grown
        exact (List.prefix_append _ _).trans grown

theorem Normal.of_apply (normal : shape.Normal) {move : Move} (applied : move.apply shape = .ok image) :
    image.Normal := by
  cases move <;> exact normal_mapCells normal.cells_ne_nil applied

private theorem explore_adds {moves : List Move} (turns : Nat) (waiting found result : List Polyomino)
    (ended : explore moves turns waiting found = .ok result) :
    result.length ≤ found.length + turns * moves.length ∧
      ((∀ shape ∈ waiting, shape.Normal) → ∀ image ∈ result, image ∈ found ∨ image.Normal) := by
  induction turns generalizing waiting found with
  | zero =>
    cases ended
    exact ⟨by omega, fun _ image member => .inl member⟩
  | succ turns ih =>
    cases waiting with
    | nil =>
      cases ended
      exact ⟨by omega, fun _ image member => .inl member⟩
    | cons shape waiting =>
      obtain ⟨images, mapped, rest⟩ := Outcome.bind_eq_ok.mp ended
      obtain ⟨short, all⟩ := ih _ _ rest
      have applied := Outcome.mapM_eq_ok.mp mapped
      refine ⟨?_, fun normal image member => ?_⟩
      · have fewer := (List.subperm_of_subset (nodup_eraseDups (images.filter (· ∉ found)))
          fun _ member => List.mem_eraseDups.mp member).length_le
        have kept := List.length_filter_le (· ∉ found) images
        have count := applied.length_eq
        rw [List.length_append] at short
        rw [Nat.succ_mul]
        omega
      · obtain ⟨here, others⟩ := List.forall_mem_cons.mp normal
        have fresh : ∀ image ∈ (images.filter (· ∉ found)).eraseDups, image.Normal := by
          intro image new
          rw [List.mem_eraseDups] at new
          obtain ⟨move, _, made⟩ := Outcome.mem_of_forall₂ applied (List.mem_of_mem_filter new)
          exact here.of_apply made
        rcases all (List.forall_mem_append.mpr ⟨others, fresh⟩) image member with known | made
        · exact (List.mem_append.mp known).imp_right (fresh image)
        · exact .inr made

theorem orientations_normal (normal : shape.Normal) {symmetry : Symmetry} {shapes : List Polyomino}
    (oriented : shape.orientations symmetry = .ok shapes) : ∀ image ∈ shapes, image.Normal := by
  have single : ∀ image ∈ [shape], image.Normal := List.forall_mem_singleton.mpr normal
  intro image member
  exact ((explore_adds _ _ _ _ oriented).2 single image member).elim (single image) id

theorem length_orientations {symmetry : Symmetry} {shapes : List Polyomino}
    (oriented : shape.orientations symmetry = .ok shapes) : shapes.length ≤ 17 := by
  have short := (explore_adds _ _ _ _ oriented).1
  have few : symmetry.order * symmetry.moves.length ≤ 16 := by
    obtain ⟨rotation, reflection⟩ := symmetry
    cases rotation <;> cases reflection <;> decide
  rw [List.length_singleton] at short
  omega

/-- Enough moves of one kind undo it: a reflection itself, and a quarter turn three more. -/
theorem Normal.leads_back (normal : shape.Normal) (narrow : shape.Narrow) {move : Move}
    (allowed : move ∈ symmetry.moves) (applied : move.apply shape = .ok image) :
    symmetry.Leads image shape := by
  have follow {middle : Polyomino} {orientation : Orientation} (middleNormal : middle.Normal)
      (middleNarrow : middle.Narrow) (turned : Turned orientation shape middle) :
      ∃ next, symmetry.Leads middle next ∧ next.Normal ∧ next.Narrow ∧
        Turned (.next move orientation) shape next := by
    obtain ⟨next, applied, nextNormal, nextNarrow, moved⟩ := middleNormal.apply_ok middleNarrow move
    exact ⟨next, .single ⟨move, allowed, applied⟩, nextNormal, nextNarrow, turned.next moved⟩
  obtain ⟨first, applied', firstNormal, firstNarrow, moved⟩ := normal.apply_ok narrow move
  rw [applied] at applied'
  cases applied'
  obtain ⟨second, toSecond, secondNormal, secondNarrow, turned⟩ :=
    follow firstNormal firstNarrow ((Turned.refl shape).next moved)
  cases move with
  | reflect => rwa [turned.unique (Turned.refl shape) secondNormal normal] at toSecond
  | rotate =>
    obtain ⟨third, toThird, thirdNormal, thirdNarrow, turned⟩ := follow secondNormal secondNarrow turned
    obtain ⟨fourth, toFourth, fourthNormal, fourthNarrow, turned⟩ := follow thirdNormal thirdNarrow turned
    rw [turned.unique (Turned.refl shape) fourthNormal normal] at toFourth
    exact (toSecond.trans toThird).trans toFourth

theorem Normal.leads_symm (normal : shape.Normal) (narrow : shape.Narrow)
    (leads : symmetry.Leads shape image) : symmetry.Leads image shape := by
  induction leads with
  | refl => exact .refl
  | tail before step ih =>
    obtain ⟨move, allowed, applied⟩ := step
    obtain ⟨middleNormal, middleNarrow, _⟩ := normal.of_leads narrow before
    exact (middleNormal.leads_back middleNarrow allowed applied).trans ih

theorem Normal.orientations_ok (normal : shape.Normal) (narrow : shape.Narrow) (symmetry : Symmetry) :
    ∃ found, shape.orientations symmetry = .ok found ∧ found.head? = some shape ∧
      Explored symmetry.moves found found ∧ ∀ image, image ∈ found ↔ symmetry.Leads shape image := by
  have total : ∀ image, symmetry.Leads shape image → ∀ move ∈ symmetry.moves,
      ∃ next, move.apply image = .ok next ∧ symmetry.Leads shape next := by
    intro image leads move allowed
    obtain ⟨imageNormal, imageNarrow, _⟩ := normal.of_leads narrow leads
    obtain ⟨next, applied, _⟩ := imageNormal.apply_ok imageNarrow move
    exact ⟨next, applied, leads.tail ⟨move, allowed, applied⟩⟩
  obtain ⟨found, ended, grown, explored, led⟩ := explore_ok total
    (fun found => normal.length_le_order narrow) symmetry.order [] [shape]
    ⟨List.nodup_singleton shape, fun _ none => absurd none List.not_mem_nil⟩
    (by intro other member; rw [List.mem_singleton.mp member]; exact .refl) (by simp)
  obtain ⟨others, rfl⟩ := grown
  refine ⟨_, ended, rfl, explored, fun image => ⟨led image, fun leads => ?_⟩⟩
  induction leads with
  | refl => exact List.mem_cons_self
  | tail _ step ih =>
    obtain ⟨move, allowed, applied⟩ := step
    obtain ⟨next, inside, applied'⟩ := explored.closed _ ih move allowed
    rw [applied] at applied'
    cases applied'
    exact inside

/-- For every shape whose columns are not too far apart, the orientations are found without overflow: the
shape first, each one once, and exactly those that finitely many allowed moves make of it. They are
closed under the allowed moves, and every one of them has the same orientations. -/
theorem orientations_eq_orbit {cells : List Cell} (built : ofCells cells = .ok shape)
    (narrow : ∀ a ∈ shape.cells, ∀ b ∈ shape.cells, a.col.val - b.col.val ≤ 2147483647)
    (symmetry : Symmetry) :
    ∃ found, shape.orientations symmetry = .ok found ∧ found.head? = some shape ∧ found.Nodup ∧
      (∀ image, image ∈ found ↔ symmetry.Leads shape image) ∧
      (∀ image ∈ found, ∀ move ∈ symmetry.moves, ∃ next ∈ found, move.apply image = .ok next) ∧
      ∀ image ∈ found, ∃ others, image.orientations symmetry = .ok others ∧
        ∀ other, other ∈ others ↔ other ∈ found := by
  have normal := normal_ofCells built
  obtain ⟨found, ended, first, explored, exact⟩ := normal.orientations_ok narrow symmetry
  refine ⟨found, ended, first, explored.distinct, exact, explored.closed, ?_⟩
  intro image member
  have leads := (exact image).mp member
  have back := normal.leads_symm narrow leads
  obtain ⟨imageNormal, imageNarrow, _⟩ := normal.of_leads narrow leads
  obtain ⟨others, ended', _, _, exact'⟩ := imageNormal.orientations_ok imageNarrow symmetry
  refine ⟨others, ended', fun other => ?_⟩
  rw [exact, exact']
  exact ⟨fun onwards => leads.trans onwards, fun onwards => back.trans onwards⟩

def farPair : Polyomino := ⟨[.of 0 0, ⟨.of 1, .greatest⟩]⟩

theorem orientations_eq_orbit_farPair :
    ofCells farPair.cells = .ok farPair ∧
      (∀ a ∈ farPair.cells, ∀ b ∈ farPair.cells, a.col.val - b.col.val ≤ 2147483647) ∧
      ∃ found, farPair.orientations .full = .ok found ∧ found.length = 4 ∧
        ∀ image, image ∈ found ↔ Symmetry.Leads .full farPair image := by
  have built : ofCells farPair.cells = .ok farPair := by decide
  have narrow : ∀ a ∈ farPair.cells, ∀ b ∈ farPair.cells, a.col.val - b.col.val ≤ 2147483647 := by
    decide
  obtain ⟨found, ended, _, _, exact, _⟩ := orientations_eq_orbit built narrow .full
  have four : (farPair.orientations .full).toOption.map List.length = some 4 := by decide
  rw [ended] at four
  exact ⟨built, narrow, found, ended, Option.some.inj four, exact⟩

end Polyomino

end GridPuzzle
