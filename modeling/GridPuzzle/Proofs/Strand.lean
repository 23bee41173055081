import Mathlib.Data.Finset.Card
import Mathlib.Data.List.Chain
import Mathlib.Logic.Relator

/-!
Strands. A list without repetitions traces a link if the link joins its items just as they follow one another,
be it up to its end or around in a circle. Finitely many items split into such lists if each has at most one link
in and one link out, or, where links have no direction, at most two of them.
-/
namespace GridPuzzle

variable {α : Type} {link : α → α → Prop} {items rest : List α} {a b c first last : α}

def Follows (items : List α) (a b : α) : Prop := [a, b] <:+: items

def Beside (items : List α) (a b : α) : Prop := Follows items a b ∨ Follows items b a

/-- The first item comes again after the last one. -/
def circle (items : List α) : List α := items ++ items.take 1

theorem follows_cons : Follows (first :: rest) a b ↔ a = first ∧ rest.head? = some b ∨ Follows rest a b := by
  rw [Follows, List.infix_cons_iff, List.cons_prefix_cons]
  cases rest with
  | nil => simp [Follows]
  | cons second rest => simp [Follows, eq_comm]

theorem follows_concat : Follows (items ++ [last]) a b ↔
    Follows items a b ∨ items.getLast? = some a ∧ b = last := by
  induction items with
  | nil => rw [List.nil_append, follows_cons]; simp [Follows]
  | cons first rest ih =>
    rw [List.cons_append, follows_cons, ih, follows_cons]
    cases rest with
    | nil => simp [Follows, @eq_comm α first, @eq_comm α last]
    | cons second rest => rw [List.getLast?_cons_cons, or_assoc]; rfl

theorem follows_circle : Follows (circle (first :: rest)) a b ↔
    Follows (first :: rest) a b ∨ (first :: rest).getLast? = some a ∧ b = first :=
  follows_concat

theorem Follows.mem (follows : Follows items a b) : a ∈ items ∧ b ∈ items :=
  ⟨List.IsInfix.mem List.mem_cons_self follows, List.IsInfix.mem (List.mem_cons_of_mem _ List.mem_cons_self) follows⟩

theorem Follows.mem_rest (follows : Follows (first :: rest) a b) : b ∈ rest := by
  rcases follows_cons.mp follows with ⟨_, next⟩ | follows
  · exact List.mem_of_head? next
  · exact follows.mem.2

theorem mem_of_follows_circle (follows : Follows (circle items) a b) : a ∈ items ∧ b ∈ items := by
  have back {item : α} (member : item ∈ circle items) : item ∈ items := by
    rcases List.mem_append.mp member with member | member
    · exact member
    · exact List.mem_of_mem_take member
  exact ⟨back follows.mem.1, back follows.mem.2⟩

theorem Follows.second (distinct : (first :: rest).Nodup) (follows : Follows (first :: rest) first b) :
    rest.head? = some b := by
  rcases follows_cons.mp follows with ⟨_, next⟩ | follows
  · exact next
  · exact absurd follows.mem.1 (List.nodup_cons.mp distinct).1

theorem exists_follows (member : a ∈ items) : items.getLast? = some a ∨ ∃ b, Follows items a b := by
  induction items with
  | nil => cases member
  | cons first rest ih =>
    cases rest with
    | nil => exact .inl (congrArg some (List.mem_singleton.mp member).symm)
    | cons second rest =>
      rcases List.mem_cons.mp member with rfl | member
      · exact .inr ⟨second, follows_cons.mpr (.inl ⟨rfl, rfl⟩)⟩
      · rcases ih member with isLast | ⟨b, follows⟩
        · exact .inl (by rw [List.getLast?_cons_cons, isLast])
        · exact .inr ⟨b, follows_cons.mpr (.inr follows)⟩

theorem exists_followed (first : α) (member : b ∈ rest) : ∃ a, Follows (first :: rest) a b := by
  induction rest generalizing first with
  | nil => cases member
  | cons second rest ih =>
    rcases List.mem_cons.mp member with rfl | member
    · exact ⟨first, follows_cons.mpr (.inl ⟨rfl, rfl⟩)⟩
    · obtain ⟨a, follows⟩ := ih second member
      exact ⟨a, follows_cons.mpr (.inr follows)⟩

theorem Follows.ne (distinct : items.Nodup) (before : Follows items a b) (after : Follows items b c) : a ≠ c := by
  induction items with
  | nil => cases before.mem.1
  | cons first rest ih =>
    obtain ⟨fresh, distinct⟩ := List.nodup_cons.mp distinct
    rcases follows_cons.mp before with ⟨rfl, _⟩ | earlier
    · rintro rfl
      exact fresh after.mem_rest
    · rcases follows_cons.mp after with ⟨rfl, _⟩ | later
      · exact absurd earlier.mem.2 fresh
      · exact ih distinct earlier later

theorem link_of_follows (chain : items.IsChain link) (follows : Follows items a b) : link a b := by
  have pair : [a, b].IsChain link := List.IsChain.infix chain follows
  exact List.isChain_pair.mp pair

/-- The link joins items of the list with one another, and with nothing else, just where the shape does. -/
structure Traces (link shape : α → α → Prop) (items : List α) : Prop where
  distinct : items.Nodup
  within : ∀ a b, shape a b → a ∈ items ∧ b ∈ items
  linked : ∀ a b, a ∈ items ∨ b ∈ items → (link a b ↔ shape a b)

/-- A simple path that is left through its last item only in the link's direction. -/
structure IsDirectedPath (link : α → α → Prop) (items : List α) : Prop where
  nonempty : items ≠ []
  traces : Traces link (Follows items) items

structure IsDirectedCycle (link : α → α → Prop) (items : List α) : Prop where
  long : 3 ≤ items.length
  traces : Traces link (Follows (circle items)) items

/-- A simple path between two different ends. -/
structure IsPath (link : α → α → Prop) (items : List α) : Prop where
  long : 2 ≤ items.length
  traces : Traces link (Beside items) items

structure IsCycle (link : α → α → Prop) (items : List α) : Prop where
  long : 3 ≤ items.length
  traces : Traces link (Beside (circle items)) items

/-- The lists have each of the items once, and nothing else. -/
structure Splits (within : α → Prop) (parts : List (List α)) : Prop where
  distinct : parts.flatten.Nodup
  covers : ∀ item, within item ↔ item ∈ parts.flatten

/-- No link leads into the items or out of them. -/
def Sealed (link : α → α → Prop) (inside : Finset α) : Prop := ∀ a b, link a b → (a ∈ inside ↔ b ∈ inside)

theorem Splits.cons {within : α → Prop} {part : List α} {parts : List (List α)} (distinct : part.Nodup)
    (kept : ∀ item ∈ part, within item) (splits : Splits (fun item => within item ∧ item ∉ part) parts) :
    Splits within (part :: parts) := by
  constructor
  · rw [List.flatten_cons, List.nodup_append']
    refine ⟨distinct, splits.distinct, fun item member others => ?_⟩
    exact ((splits.covers item).mpr others).2 member
  · intro item
    rw [List.flatten_cons, List.mem_append, ← splits.covers item]
    constructor
    · intro member
      by_cases taken : item ∈ part
      · exact .inl taken
      · exact .inr ⟨member, taken⟩
    · intro either
      rcases either with taken | member
      · exact kept item taken
      · exact member.1

theorem Splits.perm {within : α → Prop} {parts parts' : List (List α)} (splits : Splits within parts)
    (same : parts.Perm parts') : Splits within parts' := by
  constructor
  · exact same.flatten.nodup_iff.mp splits.distinct
  · intro item
    rw [splits.covers item, same.flatten.mem_iff]

theorem Traces.sealed_rest {shape : α → α → Prop} {inside left : Finset α} (traces : Traces link shape items)
    (closed : Sealed link inside) (member : ∀ item, item ∈ left ↔ item ∈ inside ∧ item ∉ items) :
    Sealed link left := by
  intro a b linked
  have same : a ∈ items ↔ b ∈ items := by
    constructor
    · intro member
      exact (traces.within a b ((traces.linked a b (.inl member)).mp linked)).2
    · intro member
      exact (traces.within a b ((traces.linked a b (.inr member)).mp linked)).1
  rw [member, member, closed a b linked, same]

/-- Items split into strands if a strand is found among whatever other strands leave of them. -/
theorem exists_splits {IsStrand : List α → Prop} (inside : Finset α) (closed : Sealed link inside)
    (find : ∀ left ⊆ inside, left.Nonempty → Sealed link left → ∃ part, IsStrand part ∧ part ≠ [] ∧
      (∃ shape, Traces link shape part) ∧ ∀ item ∈ part, item ∈ left) :
    ∃ parts, Splits (· ∈ inside) parts ∧ ∀ part ∈ parts, IsStrand part := by
  classical
  -- by the number of items: a strand is taken away, and no link joins it to what it leaves
  induction inside using Finset.strongInduction with
  | H inside ih =>
    rcases inside.eq_empty_or_nonempty with rfl | nonempty
    · exact ⟨[], ⟨List.nodup_nil, by simp⟩, by simp⟩
    · obtain ⟨part, strand, some, ⟨shape, traces⟩, kept⟩ := find inside (Finset.Subset.refl _) nonempty closed
      have fewer : ({item ∈ inside | item ∉ part} : Finset α) ⊂ inside := by
        obtain ⟨first, rest, rfl⟩ := List.exists_cons_of_ne_nil some
        refine Finset.filter_ssubset.mpr ⟨first, kept first List.mem_cons_self, ?_⟩
        exact not_not.mpr List.mem_cons_self
      obtain ⟨parts, splits, strands⟩ := ih _ fewer (traces.sealed_rest closed fun _ => Finset.mem_filter)
        fun left within => find left (within.trans fewer.subset)
      refine ⟨part :: parts, Splits.cons traces.distinct kept ?_, List.forall_mem_cons.mpr ⟨strand, strands⟩⟩
      exact ⟨splits.distinct, fun item => Finset.mem_filter.symm.trans (splits.covers item)⟩

/-- The list leads along links to its last item and stays inside the given items. -/
structure Strung (link : α → α → Prop) (inside : Finset α) (last : α) (items : List α) : Prop where
  ends : items.getLast? = some last
  distinct : items.Nodup
  kept : ∀ item ∈ items, item ∈ inside
  chain : items.IsChain link

section Strung

variable {inside : Finset α}

theorem Strung.length_le (strung : Strung link inside last items) : items.length ≤ inside.card := by
  have subset : (⟨items, strung.distinct⟩ : Finset α) ⊆ inside := strung.kept
  exact Finset.card_le_card subset

/-- A list that cannot be grown at its start has all that leads to its first item. -/
private theorem Strung.exists_stuck (closed : Sealed link inside) {first : α} {rest : List α}
    (strung : Strung link inside last (first :: rest)) :
    ∃ first rest, Strung link inside last (first :: rest) ∧ ∀ a, link a first → a ∈ first :: rest := by
  by_cases stuck : ∀ a, link a first → a ∈ first :: rest
  · exact ⟨first, rest, strung, stuck⟩
  · -- the list grows at its start, which ends as it has no item twice
    push Not at stuck
    obtain ⟨a, linked, fresh⟩ := stuck
    have member := (closed a first linked).mpr (strung.kept first List.mem_cons_self)
    have longer : Strung link inside last (a :: first :: rest) :=
      ⟨by rw [List.getLast?_cons_cons, strung.ends], List.nodup_cons.mpr ⟨fresh, strung.distinct⟩,
        List.forall_mem_cons.mpr ⟨member, strung.kept⟩, List.isChain_cons_cons.mpr ⟨linked, strung.chain⟩⟩
    exact longer.exists_stuck closed
termination_by inside.card - (first :: rest).length
decreasing_by
  have bound := longer.length_le
  simp only [List.length_cons] at *
  omega

theorem exists_stuck (closed : Sealed link inside) (member : last ∈ inside) :
    ∃ first rest, Strung link inside last (first :: rest) ∧ ∀ a, link a first → a ∈ first :: rest := by
  have alone : Strung link inside last [last] :=
    ⟨rfl, List.nodup_singleton last, List.forall_mem_singleton.mpr member, List.isChain_singleton last⟩
  exact alone.exists_stuck closed

theorem Strung.eq_last (strung : Strung link inside last items) (isLast : items.getLast? = some a) : a = last :=
  Option.some.inj (isLast.symm.trans strung.ends)

theorem Strung.not_mem_rest (strung : Strung link inside last (first :: rest)) : first ∉ rest :=
  (List.nodup_cons.mp strung.distinct).1

theorem Strung.around (strung : Strung link inside last (first :: rest)) (back : link last first) :
    (circle (first :: rest)).IsChain link := by
  refine List.isChain_append.mpr ⟨strung.chain, List.isChain_singleton first, fun a isLast b isFirst => ?_⟩
  cases strung.eq_last isLast
  cases Option.some.inj isFirst
  exact back

end Strung

section Directed

variable {inside : Finset α} (left : Relator.LeftUnique link) (right : Relator.RightUnique link)
include left right

/-- Where each item of a list has the links in and out that a walk has, or none, it has no others. -/
private theorem traces_walk {walk : List α} (distinct : items.Nodup) (chain : walk.IsChain link)
    (within : ∀ a b, Follows walk a b → a ∈ items ∧ b ∈ items)
    (onward : ∀ a ∈ items, (∃ b, Follows walk a b) ∨ ∀ b, ¬ link a b)
    (backward : ∀ b ∈ items, (∃ a, Follows walk a b) ∨ ∀ a, ¬ link a b) : Traces link (Follows walk) items := by
  refine ⟨distinct, within, fun a b either => ⟨fun linked => ?_, link_of_follows chain⟩⟩
  rcases either with member | member
  · rcases onward a member with ⟨c, follows⟩ | none
    · exact right (link_of_follows chain follows) linked ▸ follows
    · exact absurd linked (none b)
  · rcases backward b member with ⟨c, follows⟩ | none
    · exact left (link_of_follows chain follows) linked ▸ follows
    · exact absurd linked (none a)

omit left in
private theorem last_of_link_first (strung : Strung link inside last (first :: rest))
    (member : a ∈ first :: rest) (linked : link a first) : a = last := by
  rcases exists_follows member with isLast | ⟨b, follows⟩
  · exact strung.eq_last isLast
  · have same : b = first := right (link_of_follows strung.chain follows) linked
    exact absurd (same ▸ follows.mem_rest) strung.not_mem_rest

/-- Going back from an item without a link out ends at one without a link in. -/
theorem exists_directedPath (closed : Sealed link inside) (member : last ∈ inside) (final : ∀ b, ¬ link last b) :
    ∃ first rest, IsDirectedPath link (first :: rest) ∧ (∀ a, ¬ link a first) ∧
      (first :: rest).getLast? = some last ∧ ∀ item ∈ first :: rest, item ∈ inside := by
  obtain ⟨first, rest, strung, stuck⟩ := exists_stuck closed member
  have initial : ∀ a, ¬ link a first := by
    intro a linked
    exact final first (last_of_link_first right strung (stuck a linked) linked ▸ linked)
  refine ⟨first, rest, ⟨List.cons_ne_nil _ _, ?_⟩, initial, strung.ends, strung.kept⟩
  apply traces_walk left right strung.distinct strung.chain fun a b => Follows.mem
  · intro a member
    rcases exists_follows member with isLast | follows
    · exact .inr (strung.eq_last isLast ▸ final)
    · exact .inl follows
  · intro b member
    rcases List.mem_cons.mp member with rfl | member
    · exact .inr initial
    · exact .inl (exists_followed _ member)

/-- Going back along links comes around if every item has a link in. -/
theorem exists_directedCycle (closed : Sealed link inside) (entered : ∀ b ∈ inside, ∃ a, link a b)
    (oneWay : ∀ a b, link a b → ¬ link b a) (member : last ∈ inside) :
    ∃ items, IsDirectedCycle link items ∧ ∀ item ∈ items, item ∈ inside := by
  obtain ⟨first, rest, strung, stuck⟩ := exists_stuck closed member
  have back : link last first := by
    obtain ⟨a, linked⟩ := entered first (strung.kept first List.mem_cons_self)
    exact last_of_link_first right strung (stuck a linked) linked ▸ linked
  refine ⟨first :: rest, ⟨?_, ?_⟩, strung.kept⟩
  · have ends := strung.ends
    cases rest with
    | nil => cases ends; exact absurd back (oneWay _ _ back)
    | cons second rest =>
      cases rest with
      | nil => cases ends; exact absurd back (oneWay _ _ (List.isChain_pair.mp strung.chain))
      | cons third rest => simp
  · apply traces_walk left right strung.distinct (strung.around back) fun a b => mem_of_follows_circle
    · intro a member
      rcases exists_follows member with isLast | ⟨b, follows⟩
      · exact .inl ⟨first, follows_circle.mpr (.inr ⟨isLast, rfl⟩)⟩
      · exact .inl ⟨b, follows_circle.mpr (.inl follows)⟩
    · intro b member
      rcases List.mem_cons.mp member with rfl | member
      · exact .inl ⟨last, follows_circle.mpr (.inr ⟨strung.ends, rfl⟩)⟩
      · obtain ⟨a, follows⟩ := exists_followed _ member
        exact .inl ⟨a, follows_circle.mpr (.inl follows)⟩

end Directed

end GridPuzzle
