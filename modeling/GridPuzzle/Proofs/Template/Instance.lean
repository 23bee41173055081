import GridPuzzle.Template.Block
import GridPuzzle.Template.Loop
import GridPuzzle.Template.Source
import GridPuzzle.Template.SourceBits
import GridPuzzle.Proofs.Template.Region

/-!
Instances of templates. What the rules of an instance define are labels made of base words of the template, the kind of
adjacency and the color. No base goes on as another one does, a kind is a word without a separator and the color comes
last, so that a label shows the instance it belongs to.
-/
namespace GridPuzzle.Template

inductive Family
  | connected
  | connectedToBorder
  | connectedInAreas
  | reachFrom
  | lightFrom
  | separatedByBits
  | rectangles
  | rectangularRegions
  | noRectangle
  | loopSigns
  | straight
  | turning
  deriving DecidableEq

namespace Family

def bases : Family → List String
  | connected => ["reachable_grid_adj"]
  | connectedToBorder => ["reachable_border_adj"]
  | connectedInAreas => ["reachable_area_adj"]
  | reachFrom => ["reachable_grid_src_adj"]
  | lightFrom => ["reachable_bulb_src_adj"]
  | separatedByBits => ["reachable_grid_bit_adj", "reachable_grid_no_bit_adj"]
  | rectangles => ["upleft", "left", "up", "remain"]
  | rectangularRegions => ["region_upleft", "region_left", "region_up", "region_remain"]
  | noRectangle => ["no_rect"]
  | loopSigns => ["loop_sign"]
  | straight => ["loop_straight"]
  | turning => ["loop_turning"]

def spreads (family : Family) : Bool :=
  family ∈ [connected, connectedToBorder, connectedInAreas, reachFrom, lightFrom, separatedByBits]

def all : List Family :=
  [connected, connectedToBorder, connectedInAreas, reachFrom, lightFrom, separatedByBits, rectangles,
    rectangularRegions, noRectangle, loopSigns, straight, turning]

theorem mem_all (family : Family) : family ∈ all := by cases family <;> decide

/-- No base begins as another one does up to a separator, be it of the same family or not. -/
theorem bases_apart {family family' : Family} {base base' : String} (listed : base ∈ family.bases)
    (listed' : base' ∈ family'.bases)
    (starts : base.toList ++ [Label.separator] <+: base'.toList ++ [Label.separator]) :
    family = family' ∧ base = base' := by
  have each : ∀ family ∈ all, ∀ family' ∈ all, ∀ base ∈ family.bases, ∀ base' ∈ family'.bases,
      base.toList ++ [Label.separator] <+: base'.toList ++ [Label.separator] → family = family' ∧ base = base' := by
    decide +kernel
  exact each family family.mem_all family' family'.mem_all base listed base' listed' starts

end Family

/-- A template with the adjacency and the color that it is for, as far as it is for one. -/
@[ext] structure Instance where
  family : Family
  kind : Option Adjacency
  color : Option Color
  deriving DecidableEq

namespace Instance

def parts (entry : Instance) : List Label.Part :=
  [(entry.kind.map Label.Part.ofAdjacency).getD .absent, (entry.color.map Label.Part.ofColor).getD .absent]

/-- The program is the instance's, whatever its template takes besides. -/
inductive Builds : Instance → Program → Prop
  | connected (color : Color) (kind : Adjacency) (size : Option (Coord × Coord)) :
      Builds ⟨.connected, some kind, some color⟩ (connected color kind size)
  | connectedToBorder (rows cols : Coord) (color : Color) (kind : Adjacency) (program : Program)
      (built : connectedToBorder rows cols color kind = .ok program) :
      Builds ⟨.connectedToBorder, some kind, some color⟩ program
  | connectedInAreas (color : Color) (kind : Adjacency) :
      Builds ⟨.connectedInAreas, some kind, some color⟩ (connectedInAreas color kind)
  | reachFrom (source : Cell) (required forbidden : List Cell) (color : Option Color) (kind : Adjacency) :
      Builds ⟨.reachFrom, some kind, color⟩ (reachFrom source required forbidden color kind)
  | lightFrom (source : Cell) (color : Color) (kind : Adjacency) :
      Builds ⟨.lightFrom, some kind, some color⟩ (lightFrom source color kind)
  | separatedByBits (color : Color) (kind : Adjacency) :
      Builds ⟨.separatedByBits, some kind, some color⟩ (separatedByBits color kind)
  | rectangles (color : Color) (square : Bool) :
      Builds ⟨.rectangles, none, some color⟩ (rectangles color square)
  | rectangularRegions (square : Bool) : Builds ⟨.rectangularRegions, none, none⟩ (rectangularRegions square)
  | noRectangle (color : Color) : Builds ⟨.noRectangle, none, some color⟩ (noRectangle color)
  | loopSigns (color : Color) : Builds ⟨.loopSigns, none, some color⟩ (loopSigns color)
  | straight (color : Color) : Builds ⟨.straight, none, some color⟩ (straight color)
  | turning (color : Color) : Builds ⟨.turning, none, some color⟩ (turning color)

end Instance

/-- The words of labels that spread, and the base that they make. -/
def spreadBases : List (List String × String) :=
  [(["grid"], "reachable_grid_adj"), (["border"], "reachable_border_adj"), (["area"], "reachable_area_adj"),
    (["grid", "src"], "reachable_grid_src_adj"), (["bulb", "src"], "reachable_bulb_src_adj"),
    (["grid", "bit"], "reachable_grid_bit_adj"), (["grid", "no_bit"], "reachable_grid_no_bit_adj")]

theorem join_words {words : List String} {base : String} (listed : (words, base) ∈ spreadBases) :
    Label.join "reachable" (words.map .word ++ [.word "adj"]) = base := by
  have each : ∀ entry ∈ spreadBases, Label.join "reachable" (entry.1.map .word ++ [.word "adj"]) = entry.2 := by
    decide +kernel
  exact each _ listed

theorem spreadLabel_eq {words : List String} {base : String} (listed : (words, base) ∈ spreadBases)
    (family : Family) (kind : Adjacency) (color : Option Color) :
    spreadLabel words kind color = Label.join base (Instance.parts ⟨family, some kind, color⟩) := by
  rw [← join_words listed, ← Label.join_append, List.append_assoc]
  rfl

namespace Instance

def labels (entry : Instance) : List String := entry.family.bases.map fun base => Label.join base entry.parts

variable {entry : Instance} {program : Program} {relation : String}

theorem labels_spread (words : List String) {base : String} {family : Family} (only : family.bases = [base])
    (listed : (words, base) ∈ spreadBases) (kind : Adjacency) (color : Option Color) :
    labels ⟨family, some kind, color⟩ = [spreadLabel words kind color] := by
  rw [labels, only, List.map_singleton, spreadLabel_eq listed]

theorem labels_color (family : Family) (color : Color) :
    labels ⟨family, none, some color⟩ = family.bases.map fun base => Label.join base [.ofColor color] := rfl

theorem mem_labels_of_defines (builds : entry.Builds program) (defines : program.Defines relation) :
    relation ∈ entry.labels := by
  refine Program.Within.mem_of_defines ?_ defines
  cases builds with
  | connected color kind size =>
    rw [labels_spread ["grid"] rfl (by decide)]
    simp [connected, spread, covered, Atom.cell]
  | connectedToBorder rows cols color kind program built =>
    rw [labels_spread ["border"] rfl (by decide)]
    unfold connectedToBorder at built
    cases check : requireCells rows cols with
    | error error => simp [check, Bind.bind, Except.bind] at built
    | ok _ =>
      simp only [check, Bind.bind, Except.bind, Pure.pure, Except.pure, Except.ok.injEq] at built
      subst built
      simp [spread, covered, Atom.cell]
  | connectedInAreas color kind =>
    rw [labels_spread ["area"] rfl (by decide)]
    simp [connectedInAreas]
  | reachFrom source required forbidden color kind =>
    rw [labels_spread ["grid", "src"] rfl (by decide)]
    by_cases walled : kind = .walled <;> simp [reachFrom, reaches, sourceLabel, walled]
  | lightFrom source color kind =>
    rw [labels_spread ["bulb", "src"] rfl (by decide)]
    simp [lightFrom, reaches]
  | separatedByBits color kind =>
    have bits : labels ⟨.separatedByBits, some kind, some color⟩ =
        [bitLabel "bit" color kind, bitLabel "no_bit" color kind] := by
      have present : (["grid", "bit"], "reachable_grid_bit_adj") ∈ spreadBases := by decide
      have absent : (["grid", "no_bit"], "reachable_grid_no_bit_adj") ∈ spreadBases := by decide
      rw [bitLabel, bitLabel, spreadLabel_eq present .separatedByBits, spreadLabel_eq absent .separatedByBits]
      rfl
    rw [bits]
    simp [separatedByBits]
  | rectangles color square =>
    rw [labels_color]
    cases square <;>
      simp [rectangles, colorRoles, squareGroups, Roles.ofColor, Atom.cell, Family.bases]
  | rectangularRegions square =>
    have roles : labels ⟨.rectangularRegions, none, none⟩ =
        ["region_upleft", "region_left", "region_up", "region_remain"] := rfl
    rw [roles]
    cases square <;>
      simp [rectangularRegions, squareRegions, regionRoles, ofRegion_eq, aligned, unaligned, Atom.cell]
  | noRectangle color =>
    rw [labels_color]
    simp [noRectangle, bend, Atom.cell, Family.bases]
  | loopSigns color =>
    rw [labels_color]
    simp [loopSigns, signs, Family.bases]
  | straight color =>
    rw [labels_color]
    simp [straight, Atom.cell, Family.bases]
  | turning color =>
    rw [labels_color]
    simp [turning, Atom.cell, Family.bases]

theorem isSome_kind (builds : entry.Builds program) : entry.kind.isSome = entry.family.spreads := by
  cases builds <;> rfl

/-- A part that there may be stands in a label after a separator. -/
def tail (word : Option String) : List Char := (word.map fun word => Label.separator :: word.toList).getD []

theorem tail_starts (word : Option String) : ∀ char ∈ (tail word).head?, char = Label.separator := by
  cases word with
  | none => nofun
  | some word =>
    intro char first
    exact (Option.some.inj first).symm

theorem toList_label (accepted : ∀ color ∈ entry.color, color.Accepted) (base : String) :
    (Label.join base entry.parts).toList =
      base.toList ++ (tail (entry.kind.map Adjacency.word) ++ tail (entry.color.map Color.word)) := by
  have plainKind (kind : Adjacency) : Label.plain kind.word = kind.word :=
    Label.plain_eq (by cases kind <;> simp [Adjacency.word, Adjacency.name])
  obtain ⟨family, kind, color⟩ := entry
  rw [Label.toList_join]
  cases kind <;> cases color <;>
    simp_all [parts, tail, List.filterMap_cons, Label.Part.ofAdjacency, Label.Part.ofColor, Label.Part.text?,
      Color.Accepted.plain_word]

theorem kind_of_word {kind kind' : Adjacency} (same : kind.word.toList = kind'.word.toList) : kind = kind' := by
  revert same
  cases kind <;> cases kind' <;> decide

theorem separator_notMem_word (kind : Adjacency) : Label.separator ∉ kind.word.toList := by
  cases kind <;> decide

theorem color_of_tail {color color' : Option Color} (accepted : ∀ one ∈ color, one.Accepted)
    (accepted' : ∀ one ∈ color', one.Accepted)
    (same : tail (color.map Color.word) = tail (color'.map Color.word)) : color = color' := by
  cases color with
  | none =>
    cases color' with
    | none => rfl
    | some one => cases same
  | some one =>
    cases color' with
    | none => cases same
    | some other =>
      have words : one.word = other.word := String.toList_inj.mp (List.cons.inj same).2
      exact congrArg some ((accepted one rfl).word_injective (accepted' other rfl) words)

/-- A kind that is told ends at the separator before the color. -/
theorem tails_inj {kind kind' : Option Adjacency} {color color' : Option Color} (accepted : ∀ one ∈ color, one.Accepted)
    (accepted' : ∀ one ∈ color', one.Accepted) (kinds : kind.isSome = kind'.isSome)
    (same : tail (kind.map Adjacency.word) ++ tail (color.map Color.word) =
      tail (kind'.map Adjacency.word) ++ tail (color'.map Color.word)) : kind = kind' ∧ color = color' := by
  cases kind with
  | none =>
    cases kind' with
    | none => exact ⟨rfl, color_of_tail accepted accepted' same⟩
    | some kind' => cases kinds
  | some kind =>
    cases kind' with
    | none => cases kinds
    | some kind' =>
      obtain ⟨words, colors⟩ := Label.word_append_inj (separator_notMem_word kind) (separator_notMem_word kind')
        (tail_starts _) (tail_starts _) (List.cons.inj same).2
      exact ⟨congrArg some (kind_of_word words), color_of_tail accepted accepted' colors⟩

theorem eq_of_mem_labels {entry' : Instance} (accepted : ∀ color ∈ entry.color, color.Accepted)
    (accepted' : ∀ color ∈ entry'.color, color.Accepted) (kinds : entry.kind.isSome = entry.family.spreads)
    (kinds' : entry'.kind.isSome = entry'.family.spreads) (label : relation ∈ entry.labels)
    (label' : relation ∈ entry'.labels) : entry = entry' := by
  obtain ⟨base, listed, rfl⟩ := List.mem_map.mp label
  obtain ⟨base', listed', same⟩ := List.mem_map.mp label'
  -- one of the two bases starts the other up to a separator, which different ones never do
  obtain ⟨families, rfl⟩ : entry.family = entry'.family ∧ base = base' := by
    rcases Label.base_isPrefix_or same with starts | starts
    · obtain ⟨families, bases⟩ := Family.bases_apart listed' listed starts
      exact ⟨families.symm, bases.symm⟩
    · exact Family.bases_apart listed listed' starts
  have tails := congrArg String.toList same.symm
  rw [toList_label accepted, toList_label accepted', List.append_right_inj] at tails
  rw [families, ← kinds'] at kinds
  obtain ⟨kind, color⟩ := tails_inj accepted accepted' kinds tails
  exact Instance.ext families kind color

/-- Programs of different instances define no relation in common. -/
theorem instances_apart (entry entry' : Instance) (different : entry ≠ entry')
    (accepted : ∀ color ∈ entry.color, color.Accepted) (accepted' : ∀ color ∈ entry'.color, color.Accepted)
    (program program' : Program) (builds : entry.Builds program) (builds' : entry'.Builds program')
    (relation : String) : ¬ (program.Defines relation ∧ program'.Defines relation) := by
  rintro ⟨defines, defines'⟩
  exact different (eq_of_mem_labels accepted accepted' (isSome_kind builds) (isSome_kind builds')
    (mem_labels_of_defines builds defines) (mem_labels_of_defines builds' defines'))

theorem instances_apart_directed : ∃ relation,
    (connected (.positive "black") .directedPath none).Defines relation ∧
      ¬ (connected (.positive "directed_black") .path none).Defines relation := by
  have defines : (connected (.positive "black") .directedPath none).Defines
      (spreadLabel ["grid"] .directedPath (some (.positive "black"))) :=
    .inr ⟨_, _, List.mem_cons_self, rfl⟩
  refine ⟨_, defines, fun other => ?_⟩
  refine instances_apart ⟨.connected, some .directedPath, some (.positive "black")⟩
    ⟨.connected, some .path, some (.positive "directed_black")⟩ (by decide) ?_ ?_ _ _ (.connected _ _ _)
    (.connected _ _ _) _ ⟨defines, other⟩
  · rintro _ ⟨⟩
    exact ⟨"black", .inl rfl⟩
  · rintro _ ⟨⟩
    exact ⟨"directed_black", .inl rfl⟩

end Instance

end GridPuzzle.Template
