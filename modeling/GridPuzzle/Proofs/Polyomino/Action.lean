import Mathlib.Algebra.Group.MinimalAxioms
import Mathlib.Data.Set.Card
import Mathlib.GroupTheory.Coset.Card
import Mathlib.GroupTheory.GroupAction.Blocks
import Mathlib.GroupTheory.GroupAction.Quotient
import GridPuzzle.Proofs.Polyomino.Canonical

/-!
The group of orientations. Orientations compose like the symmetries of a square, and they act on the shapes whose
columns lie close enough together. The orientations that a symmetry allows form a subgroup, and what its moves make
of a shape is an orbit: its size divides the order of the symmetry, and two orbits are equal or have no shape in common.
-/
namespace GridPuzzle

namespace Orientation

theorem sign_xor (back back' : Bool) (number : ℤ) : sign (back ^^ back') number = sign back (sign back' number) := by
  cases back <;> cases back' <;> simp [sign]

theorem act_add (orientation : Orientation) (point offset : ℤ × ℤ) :
    orientation.act (point + offset) = orientation.act point + orientation.act offset := by
  have sign_add (back : Bool) (a b : ℤ) : sign back (a + b) = sign back a + sign back b := by
    cases back <;> simp [sign, add_comm]
  obtain ⟨swapped, rowsBack, colsBack⟩ := orientation
  cases swapped <;> exact Prod.ext (sign_add _ _ _) (sign_add _ _ _)

theorem ext_act {first second : Orientation} (same : ∀ point, first.act point = second.act point) :
    first = second := by
  have apart : ∀ first second : Orientation, first.act (1, 2) = second.act (1, 2) → first = second := by
    rintro ⟨_ | _, _ | _, _ | _⟩ ⟨_ | _, _ | _, _ | _⟩ <;> decide
  exact apart first second (same (1, 2))

/-- To be turned in one way, and then in another. -/
def after (later first : Orientation) : Orientation :=
  if later.swapped then ⟨!first.swapped, later.rowsBack ^^ first.colsBack, later.colsBack ^^ first.rowsBack⟩
  else ⟨first.swapped, later.rowsBack ^^ first.rowsBack, later.colsBack ^^ first.colsBack⟩

def undo (orientation : Orientation) : Orientation :=
  if orientation.swapped then ⟨true, orientation.colsBack, orientation.rowsBack⟩ else orientation

instance : Mul Orientation := ⟨after⟩

instance : One Orientation := ⟨upright⟩

instance : Inv Orientation := ⟨undo⟩

theorem act_mul (later first : Orientation) (point : ℤ × ℤ) :
    (later * first).act point = later.act (first.act point) := by
  obtain ⟨swapped, _, _⟩ := later
  obtain ⟨swapped', _, _⟩ := first
  cases swapped <;> cases swapped' <;> exact Prod.ext (sign_xor _ _ _) (sign_xor _ _ _)

theorem undo_after (orientation : Orientation) : orientation⁻¹ * orientation = 1 := by
  rcases orientation with ⟨_ | _, _ | _, _ | _⟩ <;> rfl

instance : Group Orientation :=
  Group.ofLeftAxioms (fun a b c => ext_act fun point => by simp only [act_mul])
    (fun a => ext_act fun point => (act_mul 1 a point).trans (act_upright _)) undo_after

/-- The orientation that a move gives an upright shape. -/
def ofMove (move : Move) : Orientation := next move upright

end Orientation

namespace Symmetry

theorem mul_mem_turns (symmetry : Symmetry) : ∀ a ∈ symmetry.turns, ∀ b ∈ symmetry.turns, a * b ∈ symmetry.turns := by
  rcases symmetry with ⟨_ | _, _ | _⟩ <;> decide

theorem inv_mem_turns (symmetry : Symmetry) : ∀ a ∈ symmetry.turns, a⁻¹ ∈ symmetry.turns := by
  rcases symmetry with ⟨_ | _, _ | _⟩ <;> decide

/-- The orientations that a symmetry allows. -/
def group (symmetry : Symmetry) : Subgroup Orientation where
  carrier := {orientation | orientation ∈ symmetry.turns}
  one_mem' := symmetry.upright_mem_turns
  mul_mem' := fun {a b} inA inB => symmetry.mul_mem_turns a inA b inB
  inv_mem' := fun {a} inA => symmetry.inv_mem_turns a inA

theorem mem_group {symmetry : Symmetry} {orientation : Orientation} :
    orientation ∈ symmetry.group ↔ orientation ∈ symmetry.turns := Iff.rfl

theorem card_group (symmetry : Symmetry) : Nat.card symmetry.group = symmetry.order := by
  have distinct : symmetry.turns.Nodup := by rcases symmetry with ⟨_ | _, _ | _⟩ <;> decide
  have carrier : (symmetry.group : Set Orientation) = symmetry.turns.toFinset := by
    ext orientation
    rw [SetLike.mem_coe, mem_group, Finset.mem_coe, List.mem_toFinset]
  rw [← symmetry.length_turns, ← List.toFinset_card_of_nodup distinct, ← Set.ncard_coe_finset, ← carrier]
  rfl

end Symmetry

namespace Orientation

/-- Moves that turn an upright shape into the orientation, the last of them first: a reflection at most, and then
quarter turns. -/
def moves (orientation : Orientation) : List Move :=
  let quarters := if orientation.swapped then (if orientation.rowsBack then 1 else 3)
    else if orientation.colsBack then 2 else 0
  let mirrored := orientation.swapped ^^ orientation.rowsBack ^^ orientation.colsBack
  List.replicate quarters .rotate ++ if mirrored then [.reflect] else []

theorem moves_of_mem_turns (symmetry : Symmetry) : ∀ orientation ∈ symmetry.turns,
    (∀ move ∈ orientation.moves, move ∈ symmetry.moves) ∧ orientation.moves.foldr next upright = orientation := by
  rcases symmetry with ⟨_ | _, _ | _⟩ <;> decide

end Orientation

namespace Polyomino

variable {symmetry : Symmetry} {shape image : Polyomino}

theorem Turned.trans {first later : Orientation} {middle : Polyomino} (turned : Turned first shape middle)
    (turnedOn : Turned later middle image) : Turned (later * first) shape image := by
  obtain ⟨offset, middles⟩ := turned
  obtain ⟨offset', images⟩ := turnedOn
  refine ⟨later.act offset + offset', fun point => ?_⟩
  rw [images]
  simp only [middles, Orientation.act_mul]
  constructor
  · rintro ⟨_, ⟨source, has, rfl⟩, rfl⟩
    exact ⟨source, has, by rw [Orientation.act_add, add_assoc]⟩
  · rintro ⟨source, has, rfl⟩
    exact ⟨_, ⟨source, has, rfl⟩, by rw [Orientation.act_add, add_assoc]⟩

theorem Normal.leads_foldr (normal : shape.Normal) (narrow : shape.Narrow) (moves : List Move)
    (allowed : ∀ move ∈ moves, move ∈ symmetry.moves) : ∃ image, symmetry.Leads shape image ∧
      Turned (moves.foldr Orientation.next .upright) shape image := by
  induction moves with
  | nil => exact ⟨shape, .refl, .refl shape⟩
  | cons move moves ih =>
    obtain ⟨here, others⟩ := List.forall_mem_cons.mp allowed
    obtain ⟨middle, leads, turned⟩ := ih others
    obtain ⟨middleNormal, middleNarrow, _⟩ := normal.of_leads narrow leads
    obtain ⟨image, applied, _, _, moved⟩ := middleNormal.apply_ok middleNarrow move
    exact ⟨image, leads.tail ⟨move, here, applied⟩, turned.next moved⟩

/-- What the moves of a symmetry lead to are the images in the orientations that it allows. -/
theorem Normal.leads_iff (normal : shape.Normal) (narrow : shape.Narrow) : symmetry.Leads shape image ↔
    image.Normal ∧ ∃ orientation ∈ symmetry.turns, Turned orientation shape image := by
  constructor
  · intro leads
    obtain ⟨imageNormal, _, turned⟩ := normal.of_leads narrow leads
    exact ⟨imageNormal, turned⟩
  · rintro ⟨imageNormal, orientation, allowed, turned⟩
    obtain ⟨moves, same⟩ := Orientation.moves_of_mem_turns symmetry orientation allowed
    obtain ⟨other, leads, turned'⟩ := normal.leads_foldr narrow orientation.moves moves
    rw [same] at turned'
    exact turned.unique turned' imageNormal (normal.of_leads narrow leads).1 ▸ leads

/-- The shapes that can be turned: the normal ones whose columns lie close enough together. -/
abbrev Turnable := {shape : Polyomino // shape.Normal ∧ shape.Narrow}

namespace Turnable

theorem exists_turned (orientation : Orientation) (shape : Turnable) :
    ∃ image : Turnable, Turned orientation shape.1 image.1 := by
  obtain ⟨normal, narrow⟩ := shape.2
  have allowed : ∀ orientation, orientation ∈ Symmetry.full.turns := by
    rintro ⟨_ | _, _ | _, _ | _⟩ <;> decide
  obtain ⟨moves, same⟩ := Orientation.moves_of_mem_turns .full orientation (allowed orientation)
  obtain ⟨image, leads, turned⟩ := normal.leads_foldr narrow orientation.moves moves
  obtain ⟨imageNormal, imageNarrow, _⟩ := normal.of_leads narrow leads
  exact ⟨⟨image, imageNormal, imageNarrow⟩, same ▸ turned⟩

noncomputable instance : SMul Orientation Turnable :=
  ⟨fun orientation shape => Classical.choose (exists_turned orientation shape)⟩

theorem smul_eq_iff {orientation : Orientation} {shape image : Turnable} :
    orientation • shape = image ↔ Turned orientation shape.1 image.1 := by
  have turned : Turned orientation shape.1 (orientation • shape).1 :=
    Classical.choose_spec (exists_turned orientation shape)
  constructor
  · rintro rfl
    exact turned
  · intro turned'
    exact Subtype.ext (turned.unique turned' (orientation • shape).2.1 image.2.1)

noncomputable instance : MulAction Orientation Turnable where
  one_smul _ := smul_eq_iff.mpr (.refl _)
  mul_smul _ _ _ := smul_eq_iff.mpr ((smul_eq_iff.mp rfl).trans (smul_eq_iff.mp rfl))

/-- The moves of a symmetry lead a shape through its orbit. -/
theorem mem_orbit_iff {shape image : Turnable} :
    image ∈ MulAction.orbit symmetry.group shape ↔ symmetry.Leads shape.1 image.1 := by
  rw [shape.2.1.leads_iff shape.2.2, and_iff_right image.2.1, MulAction.mem_orbit_iff, Subtype.exists]
  simp only [Symmetry.mem_group, exists_prop, Subgroup.mk_smul, smul_eq_iff]

theorem orbit_full (shape : Turnable) : MulAction.orbit Symmetry.full.group shape =
    MulAction.orbit (Symmetry.group ⟨true, false⟩) shape ∪
      MulAction.orbit (Symmetry.group ⟨true, false⟩) (Orientation.ofMove .reflect • shape) := by
  have split : ∀ orientation ∈ Symmetry.full.turns, orientation ∈ Symmetry.turns ⟨true, false⟩ ∨
      ∃ turn ∈ Symmetry.turns ⟨true, false⟩, turn * .ofMove .reflect = orientation := by decide
  have merge : ∀ turn ∈ Symmetry.turns ⟨true, false⟩, turn ∈ Symmetry.full.turns ∧
      turn * .ofMove .reflect ∈ Symmetry.full.turns := by decide
  ext image
  simp only [Set.mem_union, MulAction.mem_orbit_iff, Subtype.exists, Symmetry.mem_group, Subgroup.mk_smul, smul_smul,
    exists_prop]
  constructor
  · rintro ⟨orientation, allowed, rfl⟩
    rcases split orientation allowed with turn | ⟨turn, inTurns, rfl⟩
    · exact .inl ⟨orientation, turn, rfl⟩
    · exact .inr ⟨turn, inTurns, rfl⟩
  · rintro (⟨turn, inTurns, rfl⟩ | ⟨turn, inTurns, rfl⟩)
    · exact ⟨turn, (merge turn inTurns).1, rfl⟩
    · exact ⟨_, (merge turn inTurns).2, rfl⟩

theorem card_orbit_dvd (symmetry : Symmetry) (shape : Turnable) :
    Nat.card (MulAction.orbit symmetry.group shape) ∣ symmetry.order := by
  rw [← symmetry.card_group, Nat.card_congr (MulAction.orbitEquivQuotientStabilizer symmetry.group shape)]
  exact (MulAction.stabilizer symmetry.group shape).card_quotient_dvd_card

end Turnable

/-- The orientations of a shape are listed without overflow and without repetition, and are its orbit. -/
theorem Normal.orientations_orbit (normal : shape.Normal) (narrow : shape.Narrow) (symmetry : Symmetry) :
    ∃ found, shape.orientations symmetry = .ok found ∧ found.Nodup ∧
      ∀ image, image ∈ found ↔
        ∃ point ∈ MulAction.orbit symmetry.group (⟨shape, normal, narrow⟩ : Turnable), point.1 = image := by
  obtain ⟨found, ended, _, explored, led⟩ := normal.orientations_ok narrow symmetry
  refine ⟨found, ended, explored.distinct, fun image => ?_⟩
  rw [led]
  constructor
  · intro leads
    obtain ⟨imageNormal, imageNarrow, _⟩ := normal.of_leads narrow leads
    exact ⟨⟨image, imageNormal, imageNarrow⟩, Turnable.mem_orbit_iff.mpr leads, rfl⟩
  · rintro ⟨point, inOrbit, rfl⟩
    exact Turnable.mem_orbit_iff.mp inOrbit

theorem Normal.length_dvd_order (normal : shape.Normal) (narrow : shape.Narrow) {found : List Polyomino}
    (ended : shape.orientations symmetry = .ok found) : found.length ∣ symmetry.order := by
  obtain ⟨listed, ended', distinct, orbit⟩ := normal.orientations_orbit narrow symmetry
  cases ended.symm.trans ended'
  have same : (Subtype.val '' MulAction.orbit symmetry.group (⟨shape, normal, narrow⟩ : Turnable)) =
      (found.toFinset : Set Polyomino) := by
    ext image
    rw [Finset.mem_coe, List.mem_toFinset, orbit]
    rfl
  have count := Set.ncard_image_of_injective (MulAction.orbit symmetry.group (⟨shape, normal, narrow⟩ : Turnable))
    Subtype.val_injective
  rw [same, Set.ncard_coe_finset, List.toFinset_card_of_nodup distinct] at count
  rw [count]
  exact Turnable.card_orbit_dvd symmetry ⟨shape, normal, narrow⟩

/-- For every shape whose columns are not too far apart, the number of orientations divides the order of the
symmetry. All orientations are the turned shapes together with those of the reflected shape, and these two sets are
equal or have no shape in common. -/
theorem orientations_divide (built : shape.Built)
    (narrow : ∀ a ∈ shape.cells, ∀ b ∈ shape.cells, a.col.val - b.col.val ≤ 2147483647) :
    (∀ symmetry, ∃ found, shape.orientations symmetry = .ok found ∧ found.length ∣ symmetry.order) ∧
    ∃ mirror all turned mirrored, shape.reflect = .ok mirror ∧ shape.orientations .full = .ok all ∧
      shape.orientations ⟨true, false⟩ = .ok turned ∧ mirror.orientations ⟨true, false⟩ = .ok mirrored ∧
      (∀ image, image ∈ all ↔ image ∈ turned ∨ image ∈ mirrored) ∧
      ((∀ image, image ∈ turned ↔ image ∈ mirrored) ∨ ∀ image ∈ turned, image ∉ mirrored) := by
  have normal := built.normal
  refine ⟨fun symmetry => ?_, ?_⟩
  · obtain ⟨found, ended, _⟩ := normal.orientations_ok narrow symmetry
    exact ⟨found, ended, normal.length_dvd_order narrow ended⟩
  · obtain ⟨mirror, reflected, mirrorNormal, mirrorNarrow, moved⟩ := normal.apply_ok narrow .reflect
    obtain ⟨all, allEnded, _, inAll⟩ := normal.orientations_orbit narrow .full
    obtain ⟨turned, turnedEnded, _, inTurned⟩ := normal.orientations_orbit narrow ⟨true, false⟩
    obtain ⟨mirrored, mirroredEnded, _, inMirrored⟩ := mirrorNormal.orientations_orbit mirrorNarrow ⟨true, false⟩
    have isMirror : Orientation.ofMove .reflect • (⟨shape, normal, narrow⟩ : Turnable) =
        ⟨mirror, mirrorNormal, mirrorNarrow⟩ := Turnable.smul_eq_iff.mpr ((Turned.refl shape).next moved)
    refine ⟨mirror, all, turned, mirrored, reflected, allEnded, turnedEnded, mirroredEnded, fun image => ?_, ?_⟩
    · simp only [inAll, inTurned, inMirrored, Turnable.orbit_full, isMirror, Set.mem_union, or_and_right, exists_or]
    · simp only [inTurned, inMirrored]
      rcases MulAction.orbit.eq_or_disjoint (G := Symmetry.group ⟨true, false⟩) (⟨shape, normal, narrow⟩ : Turnable)
        ⟨mirror, mirrorNormal, mirrorNarrow⟩ with same | apart
      · exact .inl fun image => by rw [same]
      · refine .inr ?_
        rintro _ ⟨point, inFirst, rfl⟩ ⟨other, inSecond, same⟩
        exact Set.disjoint_left.mp apart inFirst (Subtype.ext same ▸ inSecond)

theorem orientations_divide_farPair : ∃ found turned mirrored : List Polyomino, farPair.orientations .full = .ok found ∧
    found.length ∣ 8 ∧ farPair.orientations ⟨true, false⟩ = .ok turned ∧ turned.length = 2 ∧
      (∀ image, image ∈ found ↔ image ∈ turned ∨ image ∈ mirrored) ∧
      ((∀ image, image ∈ turned ↔ image ∈ mirrored) ∨ ∀ image ∈ turned, image ∉ mirrored) := by
  have built : ofCells farPair.cells = .ok farPair := by decide
  obtain ⟨divides, mirror, all, turned, mirrored, _, allEnded, turnedEnded, _, union, either⟩ :=
    orientations_divide (.ofCells built) (by decide)
  obtain ⟨found, ended, divides⟩ := divides .full
  cases ended.symm.trans allEnded
  have two : (farPair.orientations ⟨true, false⟩).toOption.map List.length = some 2 := by decide
  rw [turnedEnded] at two
  exact ⟨_, turned, mirrored, ended, divides, turnedEnded, Option.some.inj two, union, either⟩

end Polyomino

end GridPuzzle
