import Mathlib.Data.List.Forall2
import GridPuzzle.Error

/-!
Outcomes of operations that may be refused. A chain of operations has a result exactly when each of
them has one.
-/
namespace GridPuzzle.Outcome

variable {α β ε : Type}

theorem bind_eq_ok {first : Except ε α} {next : α → Except ε β} {result : β} :
    (first >>= next) = .ok result ↔ ∃ value, first = .ok value ∧ next value = .ok result := by
  cases first with
  | error error => simp [bind, Except.bind]
  | ok value => simp [bind, Except.bind]

theorem bind_of_ok {first : Except ε α} {value : α} (succeeds : first = .ok value)
    (next : α → Except ε β) : (first >>= next) = next value := by
  rw [succeeds]
  rfl

theorem pure_eq_ok {value result : α} : (pure value : Except ε α) = .ok result ↔ value = result := by
  simp [pure, Except.pure]

theorem ite_eq_ok {condition : Prop} [Decidable condition] {first second : Except ε α} {result : α} :
    (if condition then first else second) = .ok result ↔
      (condition ∧ first = .ok result) ∨ (¬ condition ∧ second = .ok result) := by
  split <;> simp_all

theorem mapM_eq_ok {step : α → Except ε β} {items : List α} {values : List β} :
    items.mapM step = .ok values ↔ List.Forall₂ (fun item value => step item = .ok value) items values := by
  induction items generalizing values with
  | nil =>
    rw [List.mapM_nil, pure_eq_ok, List.forall₂_nil_left_iff]
    exact eq_comm
  | cons item items ih =>
    rw [List.mapM_cons, bind_eq_ok, List.forall₂_cons_left_iff]
    apply exists_congr
    intro value
    constructor
    · intro parts
      obtain ⟨head, tail⟩ := parts
      obtain ⟨rest, mapped, same⟩ := bind_eq_ok.mp tail
      exact ⟨rest, head, ih.mp mapped, (pure_eq_ok.mp same).symm⟩
    · intro parts
      obtain ⟨rest, head, mapped, rfl⟩ := parts
      exact ⟨head, bind_eq_ok.mpr ⟨rest, ih.mpr mapped, rfl⟩⟩

theorem mapM_ok {step : α → Except ε β} {image : α → β} {items : List α}
    (succeeds : ∀ item ∈ items, step item = .ok (image item)) :
    items.mapM step = .ok (items.map image) := by
  rw [mapM_eq_ok, List.forall₂_map_right_iff, List.forall₂_same]
  exact succeeds

theorem mapM_eq_filterMap {step : α → Except ε β} {items : List α}
    (succeeds : ∀ item ∈ items, ∃ value, step item = .ok value) :
    items.mapM step = .ok (items.filterMap fun item => (step item).toOption) := by
  induction items with
  | nil => rfl
  | cons item items ih =>
    obtain ⟨value, head⟩ := succeeds item List.mem_cons_self
    rw [List.mapM_cons, bind_of_ok head, bind_of_ok (ih fun other member => succeeds other (List.mem_cons_of_mem _ member)),
      List.filterMap_cons, head]
    rfl

theorem exists_mapM_ok {step : α → Except ε β} {items : List α}
    (succeeds : ∀ item ∈ items, ∃ value, step item = .ok value) :
    ∃ values, items.mapM step = .ok values :=
  ⟨_, mapM_eq_filterMap succeeds⟩

theorem foldlM_preserves {step : β → α → Except ε β} {holds : β → Prop} {items : List α}
    (keeps : ∀ item ∈ items, ∀ state next, holds state → step state item = .ok next → holds next)
    {start final : β} (starts : holds start) (ran : items.foldlM step start = .ok final) : holds final := by
  induction items generalizing start with
  | nil =>
    cases ran
    exact starts
  | cons item items ih =>
    rw [List.foldlM_cons, bind_eq_ok] at ran
    obtain ⟨next, stepped, rest⟩ := ran
    exact ih (fun other member => keeps other (List.mem_cons_of_mem _ member))
      (keeps item List.mem_cons_self _ _ starts stepped) rest

theorem exists_foldlM_ok {step : β → α → Except ε β} {holds : β → Prop} {items : List α}
    (succeeds : ∀ item ∈ items, ∀ state, holds state → ∃ next, step state item = .ok next ∧ holds next)
    {start : β} (starts : holds start) : ∃ final, items.foldlM step start = .ok final ∧ holds final := by
  induction items generalizing start with
  | nil => exact ⟨start, rfl, starts⟩
  | cons item items ih =>
    obtain ⟨next, stepped, kept⟩ := succeeds item List.mem_cons_self start starts
    obtain ⟨final, ran, ends⟩ := ih (fun other member => succeeds other (List.mem_cons_of_mem _ member)) kept
    exact ⟨final, by rw [List.foldlM_cons, bind_of_ok stepped, ran], ends⟩

/-- Where each step is a run of smaller ones, so is a run of steps. -/
theorem foldlM_eq_flatMap {γ : Type} {step : β → α → Except ε β} {small : β → γ → Except ε β} {parts : α → List γ}
    {holds : β → Prop} {items : List α}
    (keeps : ∀ part state next, holds state → small state part = .ok next → holds next)
    (same : ∀ item ∈ items, ∀ state, holds state → step state item = (parts item).foldlM small state)
    {start : β} (starts : holds start) : items.foldlM step start = (items.flatMap parts).foldlM small start := by
  induction items generalizing start with
  | nil => rfl
  | cons item items ih =>
    rw [List.foldlM_cons, List.flatMap_cons, List.foldlM_append, same item List.mem_cons_self start starts]
    cases ran : (parts item).foldlM small start with
    | error error => rfl
    | ok next =>
      have kept := foldlM_preserves (fun part _ => keeps part) starts ran
      exact ih (fun other member => same other (List.mem_cons_of_mem _ member)) kept

theorem mem_of_forall₂ {relation : α → β → Prop} {items : List α} {values : List β}
    (related : List.Forall₂ relation items values) {value : β} (member : value ∈ values) :
    ∃ item ∈ items, relation item value := by
  induction related with
  | nil => cases member
  | cons head tail ih =>
    rcases List.mem_cons.mp member with same | rest
    · exact ⟨_, List.mem_cons_self, same ▸ head⟩
    · obtain ⟨item, inside, holds⟩ := ih rest
      exact ⟨item, List.mem_cons_of_mem _ inside, holds⟩

theorem pairwise_of_forall₂ {relation : α → β → Prop} {before : α → α → Prop} {after : β → β → Prop}
    {items : List α} {values : List β} (related : List.Forall₂ relation items values)
    (keeps : ∀ item ∈ items, ∀ other ∈ items, ∀ value value', relation item value → relation other value' →
      before item other → after value value') (ordered : items.Pairwise before) : values.Pairwise after := by
  induction related with
  | nil => exact .nil
  | cons head tail ih =>
    obtain ⟨first, rest⟩ := List.pairwise_cons.mp ordered
    refine .cons (fun value member => ?_) (ih (fun item inside other inside' => keeps item
      (List.mem_cons_of_mem _ inside) other (List.mem_cons_of_mem _ inside')) rest)
    obtain ⟨item, inside, holds⟩ := mem_of_forall₂ tail member
    exact keeps _ List.mem_cons_self item (List.mem_cons_of_mem _ inside) _ _ head holds (first item inside)

theorem mem_iff_of_forall₂ {step : α → Except ε β} {items : List α} {values : List β}
    (mapped : List.Forall₂ (fun item value => step item = .ok value) items values) {value : β} :
    value ∈ values ↔ ∃ item ∈ items, step item = .ok value := by
  refine ⟨mem_of_forall₂ mapped, ?_⟩
  intro parts
  obtain ⟨item, member, image⟩ := parts
  obtain ⟨other, inside, same⟩ := mem_of_forall₂ mapped.flip member
  rw [image] at same
  cases same
  exact inside

/-- The two are refused for the same reason, or both have a result. -/
def RefusedAlike (first : Except ε α) (second : Except ε β) : Prop :=
  ∀ error, first = .error error ↔ second = .error error

namespace RefusedAlike

variable {γ δ : Type} {first : Except ε α} {second : Except ε β}

theorem refl (first : Except ε α) : RefusedAlike first first := fun _ => Iff.rfl

theorem of_ok {value : α} {value' : β} : RefusedAlike (.ok value : Except ε α) (.ok value') :=
  fun _ => ⟨nofun, nofun⟩

theorem exists_ok (alike : RefusedAlike first second) {value : α} (succeeds : first = .ok value) :
    ∃ value', second = .ok value' := by
  cases second with
  | error error =>
    rw [(alike error).mpr rfl] at succeeds
    cases succeeds
  | ok value' => exact ⟨value', rfl⟩

theorem bind (alike : RefusedAlike first second) {next : α → Except ε γ} {next' : β → Except ε δ}
    (both : ∀ value value', first = .ok value → second = .ok value' → RefusedAlike (next value) (next' value')) :
    RefusedAlike (first >>= next) (second >>= next') := by
  cases first with
  | error error =>
    rw [(alike error).mp rfl]
    exact fun other => ⟨fun same => congrArg Except.error (Except.error.inj same),
      fun same => congrArg Except.error (Except.error.inj same)⟩
  | ok value =>
    obtain ⟨value', succeeds⟩ := alike.exists_ok rfl
    rw [succeeds]
    exact both value value' rfl succeeds

theorem mapM {step : γ → Except ε α} {step' : γ → Except ε β} (items : List γ)
    (each : ∀ item ∈ items, RefusedAlike (step item) (step' item)) :
    RefusedAlike (items.mapM step) (items.mapM step') := by
  induction items with
  | nil => exact of_ok
  | cons item items ih =>
    rw [List.mapM_cons, List.mapM_cons]
    refine (each item List.mem_cons_self).bind fun _ _ _ _ => ?_
    exact (ih fun other member => each other (List.mem_cons_of_mem _ member)).bind fun _ _ _ _ => of_ok

end RefusedAlike

/-- Where the operation is refused, the reason is one of these. -/
def RefusedOnly (reason : ε → Prop) (outcome : Except ε α) : Prop := ∀ error, outcome = .error error → reason error

namespace RefusedOnly

variable {reason : ε → Prop} {first : Except ε α}

theorem of_ok (value : α) : RefusedOnly reason (.ok value : Except ε α) := nofun

theorem bind (only : RefusedOnly reason first) {next : α → Except ε β}
    (each : ∀ value, first = .ok value → RefusedOnly reason (next value)) : RefusedOnly reason (first >>= next) := by
  cases first with
  | error error => exact fun other same => only other (congrArg Except.error (Except.error.inj same))
  | ok value => exact each value rfl

theorem mapM {step : α → Except ε β} {items : List α} (each : ∀ item ∈ items, RefusedOnly reason (step item)) :
    RefusedOnly reason (items.mapM step) := by
  induction items with
  | nil => exact of_ok []
  | cons item items ih =>
    rw [List.mapM_cons]
    refine (each item List.mem_cons_self).bind fun _ _ => ?_
    exact (ih fun other member => each other (List.mem_cons_of_mem _ member)).bind fun _ _ => of_ok _

end RefusedOnly

/-- The operation is refused for this reason under the condition, and has this result otherwise. -/
structure RefusedWhen (error : ε) (condition : Prop) (outcome : Except ε α) (value : α) : Prop where
  refused : condition → outcome = .error error
  succeeds : ¬ condition → outcome = .ok value

namespace RefusedWhen

variable {error : ε} {condition condition' : Prop} {first : Except ε α} {value : α} {result : β}

theorem of_ok (never : ¬ condition) (value : α) : RefusedWhen error condition (.ok value) value :=
  ⟨fun holds => absurd holds never, fun _ => rfl⟩

theorem of_error (always : condition) (value : α) : RefusedWhen error condition (.error error) value :=
  ⟨fun _ => rfl, fun fails => absurd always fails⟩

theorem congr (refused : RefusedWhen error condition first value) (same : condition' ↔ condition) :
    RefusedWhen error condition' first value :=
  ⟨fun holds => refused.refused (same.mp holds), fun fails => refused.succeeds (mt same.mpr fails)⟩

/-- A chain is refused if its first operation is, or else the next one. -/
theorem bind (refused : RefusedWhen error condition first value) {next : α → Except ε β}
    (then_ : ¬ condition → RefusedWhen error condition' (next value) result) :
    RefusedWhen error (condition ∨ condition') (first >>= next) result := by
  by_cases holds : condition
  · rw [refused.refused holds]
    exact of_error (.inl holds) result
  · rw [bind_of_ok (refused.succeeds holds)]
    exact (then_ holds).congr (or_iff_right holds)

theorem map (refused : RefusedWhen error condition first value) (image : α → β) :
    RefusedWhen error condition (first >>= fun value => pure (image value)) (image value) :=
  (refused.bind fun _ => of_ok not_false (image value)).congr (or_iff_left not_false).symm

theorem mapM {condition : α → Prop} {step : α → Except ε β} {image : α → β} (items : List α)
    (each : ∀ item ∈ items, RefusedWhen error (condition item) (step item) (image item)) :
    RefusedWhen error (∃ item ∈ items, condition item) (items.mapM step) (items.map image) := by
  induction items with
  | nil => exact of_ok (by simp) []
  | cons item items ih =>
    rw [List.mapM_cons]
    have others := ih fun other member => each other (List.mem_cons_of_mem _ member)
    refine ((each item List.mem_cons_self).bind fun _ => others.map (image item :: ·)).congr ?_
    rw [List.exists_mem_cons_iff]

end RefusedWhen

end GridPuzzle.Outcome
