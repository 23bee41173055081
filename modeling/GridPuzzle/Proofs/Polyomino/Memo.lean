import Mathlib.Data.Finset.Card
import GridPuzzle.Polyomino.Memo

/-!
What is remembered is right: a memo that starts empty answers as if nothing were remembered.
-/
namespace GridPuzzle.Memo

variable {memo : Memo}

/-- All that is remembered are orientations of the shapes. -/
def Sound (memo : Memo) : Prop :=
  ∀ shape symmetry shapes, memo.entries.lookup (shape, symmetry) = some shapes →
    shape.orientations symmetry = .ok shapes

theorem sound_empty : empty.Sound := by
  intro shape symmetry shapes known
  cases known

theorem Sound.orientations_eq (sound : memo.Sound) (shape : Polyomino) (symmetry : Symmetry) :
    (memo.orientations shape symmetry).1 = shape.orientations symmetry := by
  unfold orientations
  cases known : memo.entries.lookup (shape, symmetry) with
  | some shapes => exact (sound shape symmetry shapes known).symm
  | none => cases shape.orientations symmetry <;> rfl

theorem Sound.orientations (sound : memo.Sound) (shape : Polyomino) (symmetry : Symmetry) :
    (memo.orientations shape symmetry).2.Sound := by
  unfold Memo.orientations
  cases known : memo.entries.lookup (shape, symmetry) with
  | some shapes => exact sound
  | none =>
    cases found : shape.orientations symmetry with
    | error _ => exact sound
    | ok shapes =>
      intro other otherSymmetry others looked
      change ((((shape, symmetry), shapes) :: memo.entries).lookup (other, otherSymmetry)) = _ at looked
      rw [List.lookup_cons] at looked
      split at looked
      · rename_i same
        obtain ⟨rfl, rfl⟩ := Prod.mk.inj (beq_iff_eq.mp same)
        exact found.trans (congrArg _ (Option.some.inj looked))
      · exact sound other otherSymmetry others looked

/-- The memo holds what has been asked for as far as it can be listed: each request once, with its orientations. -/
structure Remembers (memo : Memo) (asked : List (Polyomino × Symmetry)) : Prop where
  exact : ∀ entry ∈ memo.entries, entry.1.1.orientations entry.1.2 = .ok entry.2
  distinct : (memo.entries.map Prod.fst).Nodup
  keys : ∀ key, key ∈ memo.entries.map Prod.fst ↔ key ∈ asked ∧ (key.1.orientations key.2).isOk

theorem remembers_empty : empty.Remembers [] :=
  ⟨fun _ none => absurd none List.not_mem_nil, .nil, fun _ => by simp [empty]⟩

namespace Remembers

variable {asked : List (Polyomino × Symmetry)}

theorem sound (remembers : memo.Remembers asked) : memo.Sound := by
  intro shape symmetry shapes known
  obtain ⟨before, after, split, _⟩ := List.lookup_eq_some_iff.mp known
  exact remembers.exact ((shape, symmetry), shapes) (split ▸ List.mem_append_right _ List.mem_cons_self)

theorem size_eq (remembers : memo.Remembers asked) :
    memo.size = (asked.toFinset.filter fun key => (key.1.orientations key.2).isOk).card := by
  have same : (memo.entries.map Prod.fst).toFinset =
      asked.toFinset.filter fun key => (key.1.orientations key.2).isOk := by
    ext key
    rw [List.mem_toFinset, remembers.keys, Finset.mem_filter, List.mem_toFinset]
  rw [← same, List.toFinset_card_of_nodup remembers.distinct, List.length_map]
  rfl

/-- One more request leaves the memo as it is if the request is known or cannot be answered. -/
theorem orientations (remembers : memo.Remembers asked) (shape : Polyomino) (symmetry : Symmetry) :
    (memo.orientations shape symmetry).2.Remembers (asked ++ [(shape, symmetry)]) := by
  have keys (key : Polyomino × Symmetry) : key ∈ asked ++ [(shape, symmetry)] ∧ (key.1.orientations key.2).isOk ↔
      key ∈ memo.entries.map Prod.fst ∨ key = (shape, symmetry) ∧ (shape.orientations symmetry).isOk := by
    rw [remembers.keys, List.mem_append, List.mem_singleton, or_and_right]
    refine or_congr_right (and_congr_right ?_)
    rintro rfl
    rfl
  unfold Memo.orientations
  cases known : memo.entries.lookup (shape, symmetry) with
  | some shapes =>
    obtain ⟨before, after, split, _⟩ := List.lookup_eq_some_iff.mp known
    have listed : (shape, symmetry) ∈ memo.entries.map Prod.fst := by simp [split]
    refine ⟨remembers.exact, remembers.distinct, fun key => ?_⟩
    rw [keys]
    exact ⟨.inl, fun either => either.elim id fun same => same.1 ▸ listed⟩
  | none =>
    have unlisted : (shape, symmetry) ∉ memo.entries.map Prod.fst := by
      intro listed
      obtain ⟨entry, inside, same⟩ := List.mem_map.mp listed
      have apart := List.lookup_eq_none_iff.mp known entry inside
      simp [same] at apart
    cases found : shape.orientations symmetry with
    | error error =>
      refine ⟨remembers.exact, remembers.distinct, fun key => ?_⟩
      rw [keys, found]
      exact (or_iff_left fun refused => Bool.noConfusion refused.2).symm
    | ok shapes =>
      refine ⟨List.forall_mem_cons.mpr ⟨found, remembers.exact⟩, List.nodup_cons.mpr ⟨unlisted, remembers.distinct⟩,
        fun key => ?_⟩
      rw [keys, found, List.map_cons, List.mem_cons, or_comm]
      exact or_congr_right (and_iff_left rfl).symm

end Remembers

end GridPuzzle.Memo
