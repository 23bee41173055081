import GridPuzzle.Proofs.Strand

/-!
Strands of links without a direction. If each of finitely many items has one or two links, they split into simple
paths, whose ends are the items with one link, and cycles.
-/
namespace GridPuzzle

variable {α : Type} {link : α → α → Prop} {items rest : List α} {a b c first last : α} {inside : Finset α}

def HasOne (link : α → α → Prop) (a : α) : Prop := ∃ b, ∀ c, link a c ↔ c = b

def HasTwo (link : α → α → Prop) (a : α) : Prop := ∃ b c, b ≠ c ∧ ∀ d, link a d ↔ d = b ∨ d = c

/-- A path that nothing goes on from: its ends have one link, and its other items have two. -/
structure IsWholePath (link : α → α → Prop) (items : List α) : Prop extends IsPath link items where
  ended : ∀ item ∈ items, HasOne link item ↔ items.head? = some item ∨ items.getLast? = some item

structure IsWholeCycle (link : α → α → Prop) (items : List α) : Prop extends IsCycle link items where
  two : ∀ item ∈ items, HasTwo link item

theorem HasOne.eq (one : HasOne link a) (linked : link a b) (linked' : link a c) : b = c := by
  obtain ⟨other, only⟩ := one
  rw [(only b).mp linked, (only c).mp linked']

theorem HasTwo.not_hasOne (two : HasTwo link a) : ¬ HasOne link a := by
  obtain ⟨b, c, apart, only⟩ := two
  intro one
  exact apart (one.eq ((only b).mpr (.inl rfl)) ((only c).mpr (.inr rfl)))

private theorem eq_or_eq {d : α} (few : HasOne link a ∨ HasTwo link a) (linked : link a b) (linked' : link a c)
    (apart : b ≠ c) (other : link a d) : d = b ∨ d = c := by
  rcases few with one | ⟨x, y, _, only⟩
  · exact absurd (one.eq linked linked') apart
  · rw [only] at linked linked' other
    rcases linked with rfl | rfl <;> rcases linked' with rfl | rfl
    · exact absurd rfl apart
    · exact other
    · exact other.symm
    · exact absurd rfl apart

private theorem first_last_or (strung : Strung link inside last (first :: rest)) (member : a ∈ first :: rest) :
    a = first ∨ a ∈ rest ∧ a = last ∨
      ∃ b c, Follows (first :: rest) b a ∧ Follows (first :: rest) a c := by
  rcases List.mem_cons.mp member with rfl | inRest
  · exact .inl rfl
  · rcases exists_follows member with isLast | ⟨c, after⟩
    · exact .inr (.inl ⟨inRest, strung.eq_last isLast⟩)
    · obtain ⟨b, before⟩ := exists_followed _ inRest
      exact .inr (.inr ⟨b, c, before, after⟩)

section Symmetric

variable (symmetric : ∀ a b, link a b → link b a)
include symmetric

private theorem traces_beside {walk : List α} (distinct : items.Nodup) (chain : walk.IsChain link)
    (within : ∀ a b, Follows walk a b → a ∈ items ∧ b ∈ items)
    (beside : ∀ a ∈ items, ∀ b, link a b → Beside walk a b) : Traces link (Beside walk) items := by
  refine ⟨distinct, fun a b either => ?_, fun a b either => ⟨fun linked => ?_, fun either => ?_⟩⟩
  · rcases either with follows | follows
    · exact within a b follows
    · exact (within b a follows).symm
  · rcases either with member | member
    · exact beside a member b linked
    · exact (beside b member a (symmetric a b linked)).symm
  · rcases either with follows | follows
    · exact link_of_follows chain follows
    · exact symmetric b a (link_of_follows chain follows)

section Few

variable (few : ∀ a ∈ inside, HasOne link a ∨ HasTwo link a)
include few

private theorem between (strung : Strung link inside last items) (before : Follows items b a)
    (after : Follows items a c) {d : α} (linked : link a d) : d = b ∨ d = c :=
  eq_or_eq (few a (strung.kept a after.mem.1)) (symmetric b a (link_of_follows strung.chain before))
    (link_of_follows strung.chain after) (before.ne strung.distinct after) linked

variable (irreflexive : ∀ a, ¬ link a a)
include irreflexive

/-- The first item is linked to the second one and, if at all in the list, to the last. -/
private theorem second_or_last (strung : Strung link inside last (first :: rest)) (member : a ∈ first :: rest)
    (linked : link first a) : Follows (first :: rest) first a ∨ a ∈ rest ∧ a = last := by
  rcases first_last_or strung member with rfl | isLast | ⟨b, c, before, after⟩
  · exact absurd linked (irreflexive a)
  · exact .inr isLast
  · rcases between symmetric few strung before after (symmetric first a linked) with rfl | rfl
    · exact .inl before
    · exact absurd after.mem_rest strung.not_mem_rest

/-- A path that cannot be grown away from an item with one link has an item with one link at its start. -/
private theorem second_of_path (strung : Strung link inside last (first :: rest))
    (stuck : ∀ a, link a first → a ∈ first :: rest) (one : HasOne link last) (linked : link first a) :
    Follows (first :: rest) first a := by
  rcases second_or_last symmetric few irreflexive strung (stuck a (symmetric first a linked)) linked with
    follows | ⟨inRest, rfl⟩
  · exact follows
  · obtain ⟨b, before⟩ := exists_followed _ inRest
    exact one.eq (symmetric b a (link_of_follows strung.chain before)) (symmetric first a linked) ▸ before

theorem exists_path (closed : Sealed link inside) (member : last ∈ inside) (one : HasOne link last) :
    ∃ items, IsWholePath link items ∧ ∀ item ∈ items, item ∈ inside := by
  -- back from an item with one link as far as possible, which is to another one
  obtain ⟨first, rest, strung, stuck⟩ := exists_stuck closed member
  have second {b : α} (linked : link first b) : Follows (first :: rest) first b :=
    second_of_path symmetric few irreflexive strung stuck one linked
  obtain ⟨next, begins⟩ : ∃ b, link first b := by
    rcases few first (strung.kept first List.mem_cons_self) with ⟨b, only⟩ | ⟨b, _, _, only⟩
    · exact ⟨b, (only b).mpr rfl⟩
    · exact ⟨b, (only b).mpr (.inl rfl)⟩
  have more : rest ≠ [] := List.ne_nil_of_mem (second begins).mem_rest
  have one' : HasOne link first := by
    refine ⟨next, fun b => ⟨fun linked => ?_, fun same => same ▸ begins⟩⟩
    exact Option.some.inj (((second linked).second strung.distinct).symm.trans
      ((second begins).second strung.distinct))
  refine ⟨first :: rest, ⟨⟨?_, ?_⟩, fun item member => ?_⟩, strung.kept⟩
  · have := List.length_pos_iff.mpr more
    rw [List.length_cons]
    omega
  · apply traces_beside symmetric strung.distinct strung.chain fun a b => Follows.mem
    intro a member b linked
    rcases first_last_or strung member with rfl | ⟨inRest, rfl⟩ | ⟨c, d, before, after⟩
    · exact .inl (second linked)
    · obtain ⟨c, before⟩ := exists_followed _ inRest
      exact .inr (one.eq (symmetric c a (link_of_follows strung.chain before)) linked ▸ before)
    · rcases between symmetric few strung before after linked with rfl | rfl
      · exact .inr before
      · exact .inl after
  · constructor
    · intro single
      rcases first_last_or strung member with rfl | ⟨_, rfl⟩ | ⟨b, c, before, after⟩
      · exact .inl rfl
      · exact .inr strung.ends
      · have same := single.eq (symmetric b item (link_of_follows strung.chain before))
          (link_of_follows strung.chain after)
        exact absurd same (before.ne strung.distinct after)
    · intro either
      rcases either with isFirst | isLast
      · exact Option.some.inj isFirst ▸ one'
      · exact strung.eq_last isLast ▸ one

/-- Of the two neighbors of a first item that all others are met by, one comes second and the other one last. -/
private theorem exists_second (strung : Strung link inside last (first :: rest))
    (stuck : ∀ a, link a first → a ∈ first :: rest) (two : HasTwo link first) :
    ∃ next, rest.head? = some next ∧ next ≠ last ∧ last ∈ rest ∧ link last first := by
  have ends {b : α} (linked : link first b) : rest.head? = some b ∨ b ∈ rest ∧ b = last :=
    (second_or_last symmetric few irreflexive strung (stuck b (symmetric first b linked)) linked).imp_left
      fun follows => follows.second strung.distinct
  obtain ⟨b, c, apart, only⟩ := two
  have linkedB := (only b).mpr (.inl rfl)
  have linkedC := (only c).mpr (.inr rfl)
  rcases ends linkedB with isNext | ⟨inRest, rfl⟩
  · rcases ends linkedC with isNext' | ⟨inRest, rfl⟩
    · exact absurd (Option.some.inj (isNext.symm.trans isNext')) apart
    · exact ⟨b, isNext, apart, inRest, symmetric _ _ linkedC⟩
  · rcases ends linkedC with isNext | ⟨_, rfl⟩
    · exact ⟨c, isNext, apart.symm, inRest, symmetric _ _ linkedB⟩
    · exact absurd rfl apart

omit symmetric few irreflexive in
private theorem three_le {next : α} (isNext : rest.head? = some next) (apart : next ≠ last) (inRest : last ∈ rest) :
    3 ≤ (first :: rest).length := by
  cases rest with
  | nil => cases isNext
  | cons second rest =>
    cases Option.some.inj isNext
    rcases List.mem_cons.mp inRest with rfl | inRest
    · exact absurd rfl apart
    · have := List.length_pos_of_mem inRest
      simp only [List.length_cons]
      omega

omit few in
/-- Where every item has two links, a list that cannot be grown comes around. -/
theorem exists_cycle (closed : Sealed link inside) (two : ∀ a ∈ inside, HasTwo link a) (member : last ∈ inside) :
    ∃ items, IsWholeCycle link items ∧ ∀ item ∈ items, item ∈ inside := by
  have few : ∀ a ∈ inside, HasOne link a ∨ HasTwo link a := fun a member => .inr (two a member)
  obtain ⟨first, rest, strung, stuck⟩ := exists_stuck closed member
  obtain ⟨next, isNext, apart, inRest, back⟩ := exists_second symmetric few irreflexive strung stuck
    (two first (strung.kept first List.mem_cons_self))
  refine ⟨first :: rest, ⟨⟨three_le isNext apart inRest, ?_⟩, fun item member => two item (strung.kept item member)⟩,
    strung.kept⟩
  have around := strung.around back
  apply traces_beside symmetric strung.distinct around fun a b => mem_of_follows_circle
  intro a inList b linked
  have closing : Follows (circle (first :: rest)) last first := follows_circle.mpr (.inr ⟨strung.ends, rfl⟩)
  have along {x y : α} (follows : Follows (first :: rest) x y) : Follows (circle (first :: rest)) x y :=
    follows_circle.mpr (.inl follows)
  rcases first_last_or strung inList with rfl | ⟨inRest, rfl⟩ | ⟨c, d, before, after⟩
  · rcases second_or_last symmetric few irreflexive strung (stuck b (symmetric _ b linked)) linked with
      follows | ⟨_, rfl⟩
    · exact .inl (along follows)
    · exact .inr closing
  · obtain ⟨c, before⟩ := exists_followed first inRest
    have apart' : c ≠ first := by
      rintro rfl
      exact apart (Option.some.inj (isNext.symm.trans (before.second strung.distinct)))
    rcases eq_or_eq (.inr (two a member)) (symmetric c a (link_of_follows strung.chain before))
      back apart' linked with rfl | rfl
    · exact .inr (along before)
    · exact .inl closing
  · rcases between symmetric few strung before after linked with rfl | rfl
    · exact .inr (along before)
    · exact .inl (along after)

/-- Items with one or two links each split into paths, which end at the items with one link, and cycles. -/
theorem exists_paths_cycles (closed : Sealed link inside) :
    ∃ paths cycles, Splits (· ∈ inside) (paths ++ cycles) ∧ (∀ path ∈ paths, IsPath link path) ∧
      (∀ cycle ∈ cycles, IsCycle link cycle) ∧ ∀ item ∈ inside,
        HasOne link item ↔ ∃ path ∈ paths, path.head? = some item ∨ path.getLast? = some item := by
  classical
  obtain ⟨parts, splits, strands⟩ : ∃ parts, Splits (· ∈ inside) parts ∧
      ∀ part ∈ parts, IsWholePath link part ∨ IsWholeCycle link part := by
    apply exists_splits inside closed
    intro left within nonempty closed
    have few' : ∀ a ∈ left, HasOne link a ∨ HasTwo link a := fun a member => few a (within member)
    by_cases ends : ∃ last ∈ left, HasOne link last
    · obtain ⟨last, member, one⟩ := ends
      obtain ⟨items, path, kept⟩ := exists_path symmetric few' irreflexive closed member one
      refine ⟨items, .inl path, ?_, ⟨_, path.traces⟩, kept⟩
      rintro rfl
      cases path.long
    · have two : ∀ a ∈ left, HasTwo link a :=
        fun a member => (few' a member).resolve_left fun one => ends ⟨a, member, one⟩
      obtain ⟨last, member⟩ := nonempty
      obtain ⟨items, cycle, kept⟩ := exists_cycle symmetric irreflexive closed two member
      refine ⟨items, .inr cycle, ?_, ⟨_, cycle.traces⟩, kept⟩
      rintro rfl
      cases cycle.long
  refine ⟨parts.filter (IsWholePath link ·), parts.filter fun part => !decide (IsWholePath link part),
    splits.perm (List.filter_append_perm _ parts).symm, ?_, ?_, ?_⟩
  · intro path member
    exact (of_decide_eq_true (List.mem_filter.mp member).2).toIsPath
  · intro cycle member
    obtain ⟨member, other⟩ := List.mem_filter.mp member
    exact ((strands cycle member).resolve_left (by simpa using other)).toIsCycle
  · intro item member
    constructor
    · intro one
      obtain ⟨part, inParts, inPart⟩ := List.mem_flatten.mp ((splits.covers item).mp member)
      rcases strands part inParts with path | cycle
      · exact ⟨part, List.mem_filter.mpr ⟨inParts, decide_eq_true path⟩, (path.ended item inPart).mp one⟩
      · exact absurd one (cycle.two item inPart).not_hasOne
    · intro found
      obtain ⟨path, inPaths, isEnd⟩ := found
      have whole : IsWholePath link path := of_decide_eq_true (List.mem_filter.mp inPaths).2
      have inPath : item ∈ path := isEnd.elim List.mem_of_head? List.mem_of_getLast?
      exact (whole.ended item inPath).mpr isEnd

end Few

end Symmetric

end GridPuzzle
