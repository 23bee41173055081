import GridPuzzle.Template.Piece
import GridPuzzle.Proofs.Label

/-!
Detectors by name. The name of a shape is free, so that a detector shows the scope, and of the name and the color just
how they read one after the other. Detectors stay apart where names do not differ or are single words.
-/
namespace GridPuzzle.Template

variable {base name name' : String} {color color' : Color} {scope scope' : Scope}

/-- How a name and a color stand in labels, one after the other. -/
def reading (name : String) (color : Color) : List Char :=
  (Label.plain name).toList ++ Label.separator :: color.word.toList

theorem toList_registered (accepted : color.Accepted) (base name : String) (scope : Scope) :
    (Label.join base [.ofScope scope, .word name, .ofColor color]).toList =
      base.toList ++ Label.separator :: (scope.name.toList ++ Label.separator :: reading name color) := by
  have plainScope : Label.plain scope.name = scope.name :=
    Label.plain_eq (by cases scope <;> simp [Scope.name, Relation.grid, Relation.area])
  simp [Label.toList_join, Label.Part.ofScope, Label.Part.ofColor, Label.Part.text?, reading, plainScope,
    accepted.plain_word]

theorem join_registered_inj (accepted : color.Accepted) (accepted' : color'.Accepted) :
    Label.join base [.ofScope scope, .word name, .ofColor color] =
        Label.join base [.ofScope scope', .word name', .ofColor color'] ↔
      scope = scope' ∧ reading name color = reading name' color' := by
  have whole (scope : Scope) : Label.separator ∉ scope.name.toList := by cases scope <;> decide
  have scopes (same : scope.name.toList = scope'.name.toList) : scope = scope' := by
    revert same
    cases scope <;> cases scope' <;> decide
  rw [← String.toList_inj, toList_registered accepted, toList_registered accepted', List.append_right_inj,
    List.cons_inj_right]
  constructor
  · intro same
    obtain ⟨words, rest⟩ := Label.word_append_inj (whole scope) (whole scope') (by simp) (by simp) same
    exact ⟨scopes words, (List.cons.inj rest).2⟩
  · rintro ⟨rfl, same⟩
    rw [same]

/-- The name is taken into labels as it is, and holds no separator. -/
def IsWord (name : String) : Prop := ∀ char ∈ name.toList, char ∉ ['_', '-', ' ']

theorem IsWord.plain (word : IsWord name) : Label.plain name = name := by
  refine Label.plain_eq fun char member => ?_
  rintro (rfl | rfl)
  · exact word _ member (by decide)
  · exact word _ member (by decide)

/-- The same reading comes from one name and color, if the names do not differ or are words. -/
theorem reading_inj (accepted : color.Accepted) (accepted' : color'.Accepted)
    (told : name = name' ∨ IsWord name ∧ IsWord name') (same : reading name color = reading name' color') :
    name = name' ∧ color = color' := by
  have colors (tails : color.word.toList = color'.word.toList) : color = color' :=
    accepted.word_injective accepted' (String.toList_inj.mp tails)
  rcases told with rfl | ⟨word, word'⟩
  · have tails := List.append_cancel_left same
    exact ⟨rfl, colors (List.cons.inj tails).2⟩
  · rw [reading, reading, word.plain, word'.plain] at same
    obtain ⟨names, tails⟩ := Label.word_append_inj (fun member => word _ member (by decide))
      (fun member => word' _ member (by decide)) (by simp) (by simp) same
    exact ⟨String.toList_inj.mp names, colors (List.cons.inj tails).2⟩

/-- Detectors, like the relations of covered cells, are shared exactly within a scope by names and colors that read the
same one after the other. Where names do not differ or are words, these are the same. -/
theorem detectors_agree_iff (name name' : String) (color color' : Color) (scope scope' : Scope)
    (accepted : color.Accepted) (accepted' : color'.Accepted) :
    (∀ label ∈ [detector, covering], label name color scope = label name' color' scope' ↔
      scope = scope' ∧ reading name color = reading name' color') ∧
    (name = name' ∨ IsWord name ∧ IsWord name' →
      ∀ label ∈ [detector, covering], label name color scope = label name' color' scope' →
        (name, color, scope) = (name', color', scope')) := by
  have shared : ∀ label ∈ [detector, covering], label name color scope = label name' color' scope' ↔
      scope = scope' ∧ reading name color = reading name' color' := by
    intro label listed
    rcases List.mem_pair.mp listed with rfl | rfl
    · exact join_registered_inj accepted accepted'
    · exact join_registered_inj accepted accepted'
  refine ⟨shared, fun told label listed same => ?_⟩
  obtain ⟨rfl, read⟩ := (shared label listed).mp same
  obtain ⟨rfl, rfl⟩ := reading_inj accepted accepted' told read
  rfl

theorem detectors_agree_iff_apart :
    detector "T" (.positive "black") .grid ≠ detector "L" (.positive "black") .grid ∧
      covering "T" (.positive "black") .area ≠ covering "T" (.negated "black") .area := by
  have black : (Color.positive "black").Accepted := ⟨"black", .inl rfl⟩
  have other : (Color.negated "black").Accepted := ⟨"black", .inr rfl⟩
  constructor
  · intro same
    have told : IsWord "T" ∧ IsWord "L" := by simp [IsWord]
    exact absurd ((detectors_agree_iff "T" "L" _ _ .grid .grid black black).2 (.inr told) _ List.mem_cons_self same)
      (by simp)
  · intro same
    exact absurd ((detectors_agree_iff "T" "T" _ _ .area .area black other).2 (.inl rfl) _
      (List.mem_cons_of_mem _ List.mem_cons_self) same) (by simp)

/-- A color whose name goes on at an underscore gives that start to the name of the shape. -/
theorem detectors_agree_shifted : (Color.positive "b_c").Accepted ∧ (Color.positive "c").Accepted ∧
    ("a", Color.positive "b_c") ≠ ("a_b", Color.positive "c") ∧
    (∀ scope, detector "a" (.positive "b_c") scope = detector "a_b" (.positive "c") scope ∧
      covering "a" (.positive "b_c") scope = covering "a_b" (.positive "c") scope) ∧
    ∀ target id scope, countPieces target "a" id (.positive "b_c") scope =
      countPieces target "a_b" id (.positive "c") scope := by
  have accepted : (Color.positive "b_c").Accepted := ⟨"b_c", .inl rfl⟩
  have accepted' : (Color.positive "c").Accepted := ⟨"c", .inl rfl⟩
  have read : reading "a" (.positive "b_c") = reading "a_b" (.positive "c") := by
    simp [reading, Label.plain, Color.word, Label.separator]
  have shared (scope : Scope) : detector "a" (.positive "b_c") scope = detector "a_b" (.positive "c") scope :=
    (join_registered_inj accepted accepted').mpr ⟨rfl, read⟩
  refine ⟨accepted, accepted', by decide, fun scope => ⟨shared scope, ?_⟩, fun target id scope => ?_⟩
  · exact (join_registered_inj accepted accepted').mpr ⟨rfl, read⟩
  · unfold countPieces
    rw [shared]

end GridPuzzle.Template
