import Mathlib.Data.List.Nodup
import GridPuzzle.Flood

/-!
Floods reach all there is to reach. What is gathered is what free nodes lead to, and groups of mutually
linked nodes are the classes of those that reach each other.
-/
namespace GridPuzzle.Flood

variable {α : Type} {links : α → List α}

theorem Reaches.trans {a b c : α} (first : Reaches links a b) (second : Reaches links b c) :
    Reaches links a c := by
  induction second with
  | start => exact first
  | step _ linked ih => exact .step ih linked

theorem Reaches.single {a b : α} (linked : b ∈ links a) : Reaches links a b := .step .start linked

variable [DecidableEq α]

theorem gather_closed (links : α → List α) (waiting free : List α) :
    (∀ node ∈ waiting, node ∈ gather links waiting free) ∧
      ∀ node ∈ gather links waiting free, ∀ next ∈ links node, next ∈ free →
        next ∈ gather links waiting free := by
  fun_induction gather links waiting free with
  | case1 free => exact ⟨fun _ none => none, fun _ none => absurd none List.not_mem_nil⟩
  | case2 free node others linked ih =>
    obtain ⟨kept, closed⟩ := ih
    refine ⟨?_, ?_⟩
    · intro other member
      rcases List.mem_cons.mp member with same | rest
      · exact same ▸ List.mem_cons_self
      · exact List.mem_cons_of_mem _ (kept other (List.mem_append_left _ rest))
    · intro other member next toNext isFree
      apply List.mem_cons_of_mem _
      by_cases fromHere : next ∈ linked
      · exact kept next (List.mem_append_right _ (mem_taken.mpr ⟨isFree, fromHere⟩))
      · rcases List.mem_cons.mp member with same | rest
        · subst same
          exact absurd toNext fromHere
        · exact closed other rest next toNext (mem_left.mpr ⟨isFree, fromHere⟩)

theorem gather_sound (waiting free : List α) : ∀ node ∈ gather links waiting free,
    (node ∈ waiting ∨ node ∈ free) ∧ ∃ source ∈ waiting, Reaches links source node := by
  fun_induction gather links waiting free with
  | case1 free => exact fun _ none => absurd none List.not_mem_nil
  | case2 free node others linked ih =>
    intro other member
    rcases List.mem_cons.mp member with same | rest
    · subst same
      exact ⟨.inl List.mem_cons_self, other, List.mem_cons_self, .start⟩
    · obtain ⟨place, source, inside, reaches⟩ := ih other rest
      refine ⟨?_, ?_⟩
      · rcases place with queued | stillFree
        · rcases List.mem_append.mp queued with before | now
          · exact .inl (List.mem_cons_of_mem _ before)
          · exact .inr (mem_taken.mp now).1
        · exact .inr (mem_left.mp stillFree).1
      · rcases List.mem_append.mp inside with before | now
        · exact ⟨source, List.mem_cons_of_mem _ before, reaches⟩
        · exact ⟨node, List.mem_cons_self, (Reaches.single (mem_taken.mp now).2).trans reaches⟩

/-- A flood from some of the nodes, with the others free, gathers all that these reach. -/
theorem mem_gather {nodes sources : List α} (closed : ∀ node ∈ nodes, ∀ next ∈ links node, next ∈ nodes)
    {node : α} : node ∈ gather links (taken sources nodes) (left sources nodes) ↔
      ∃ source ∈ sources, source ∈ nodes ∧ Reaches links source node := by
  refine ⟨?_, ?_⟩
  · intro member
    obtain ⟨_, source, inside, reaches⟩ := gather_sound _ _ node member
    exact ⟨source, (mem_taken.mp inside).2, (mem_taken.mp inside).1, reaches⟩
  · intro reached
    obtain ⟨source, chosen, inside, reaches⟩ := reached
    obtain ⟨kept, grows⟩ := gather_closed links (taken sources nodes) (left sources nodes)
    have all : node ∈ nodes ∧ node ∈ gather links (taken sources nodes) (left sources nodes) := by
      induction reaches with
      | start => exact ⟨inside, kept _ (mem_taken.mpr ⟨inside, chosen⟩)⟩
      | @step before next _ linked ih =>
        have known := closed before ih.1 next linked
        refine ⟨known, ?_⟩
        by_cases source : next ∈ sources
        · exact kept next (mem_taken.mpr ⟨known, source⟩)
        · exact grows before ih.2 next linked (mem_left.mpr ⟨known, source⟩)
    exact all.2

private theorem gather_single (links : α → List α) (node : α) (others : List α) :
    ∃ rest, gather links [node] others = node :: rest ∧ ∀ other ∈ rest, other ∈ others := by
  refine ⟨gather links (taken (links node) others) (left (links node) others), by rw [gather]; rfl, ?_⟩
  intro other member
  rcases (gather_sound _ _ other member).1 with linked | free
  · exact (mem_taken.mp linked).1
  · exact (mem_left.mp free).1

/-- Nodes without links are groups of their own. -/
theorem groups_of_isolated {nodes : List α} (isolated : ∀ node ∈ nodes, links node = []) (distinct : nodes.Nodup) :
    groups links nodes = nodes.map ([·]) := by
  induction nodes with
  | nil => rw [groups, List.map_nil]
  | cons node others ih =>
    obtain ⟨fresh, distinctRest⟩ := List.nodup_cons.mp distinct
    have alone : gather links [node] others = [node] := by
      rw [gather, isolated node List.mem_cons_self]
      rw [show ([] : List α) ++ taken [] others = [] by simp [taken], gather]
    have rest : left [node] others = others := by
      refine List.filter_eq_self.mpr fun other member => decide_eq_true fun inGroup => fresh ?_
      exact List.mem_singleton.mp inGroup ▸ member
    rw [groups, alone, rest, ih (fun other member => isolated other (List.mem_cons_of_mem _ member)) distinctRest,
      List.map_cons]

theorem mem_of_mem_groups {nodes group : List α} (isGroup : group ∈ groups links nodes) :
    ∀ node ∈ group, node ∈ nodes := by
  fun_induction groups links nodes with
  | case1 => cases isGroup
  | case2 first others firstGroup ih =>
    intro node member
    rcases List.mem_cons.mp isGroup with rfl | later
    · obtain ⟨rest, same, inside⟩ := gather_single links first others
      change node ∈ gather links [first] others at member
      rw [same] at member
      rcases List.mem_cons.mp member with rfl | inRest
      · exact List.mem_cons_self
      · exact List.mem_cons_of_mem _ (inside node inRest)
    · exact List.mem_cons_of_mem _ (mem_left.mp (ih later node member)).1

/-- Where the nodes have an order, each group starts with the first of its nodes, and the groups come in the
order of these. -/
theorem groups_ordered {before : α → α → Prop} {nodes : List α} (ordered : nodes.Pairwise before) :
    (∀ group ∈ groups links nodes, ∃ first rest, group = first :: rest ∧ ∀ other ∈ rest, before first other) ∧
      (groups links nodes).Pairwise fun group later =>
        ∀ first ∈ group.head?, ∀ other ∈ later, before first other := by
  fun_induction groups links nodes with
  | case1 => exact ⟨fun _ none => absurd none List.not_mem_nil, .nil⟩
  | case2 node others group ih =>
    obtain ⟨first, orderedRest⟩ := List.pairwise_cons.mp ordered
    obtain ⟨starts, later⟩ := ih (orderedRest.filter _)
    obtain ⟨rest, same, inside⟩ := gather_single links node others
    refine ⟨?_, List.pairwise_cons.mpr ⟨?_, later⟩⟩
    · intro other member
      rcases List.mem_cons.mp member with rfl | inRest
      · exact ⟨node, rest, same, fun other member => first other (inside other member)⟩
      · exact starts other inRest
    · intro other isGroup head starts node' member
      have isFirst : group.head? = some node := by
        change (gather links [node] others).head? = _
        rw [same]
        rfl
      cases isFirst.symm.trans starts
      exact first node' (mem_left.mp (mem_of_mem_groups isGroup node' member)).1

section Groups

variable (twoWay : ∀ a b, b ∈ links a → a ∈ links b)
include twoWay

private theorem first_group {node : α} {others : List α}
    (closed : ∀ a ∈ node :: others, ∀ b ∈ links a, b ∈ node :: others) :
    (∀ other, other ∈ gather links [node] others ↔ Reaches links node other) ∧
      ∀ a ∈ left (gather links [node] others) others, ∀ b ∈ links a,
        b ∈ left (gather links [node] others) others := by
  obtain ⟨kept, grows⟩ := gather_closed links [node] others
  have class_iff : ∀ other, other ∈ gather links [node] others ↔ Reaches links node other := by
    refine fun other => ⟨?_, ?_⟩
    · intro member
      obtain ⟨_, source, inside, reaches⟩ := gather_sound _ _ other member
      exact List.mem_singleton.mp inside ▸ reaches
    · intro reaches
      have all : other ∈ node :: others ∧ other ∈ gather links [node] others := by
        induction reaches with
        | start => exact ⟨List.mem_cons_self, kept node List.mem_cons_self⟩
        | @step before next _ linked ih =>
          have known := closed before ih.1 next linked
          refine ⟨known, ?_⟩
          rcases List.mem_cons.mp known with same | free
          · exact same ▸ kept node List.mem_cons_self
          · exact grows before ih.2 next linked free
      exact all.2
  refine ⟨class_iff, ?_⟩
  intro a inside b linked
  obtain ⟨free, outside⟩ := mem_left.mp inside
  have notReached : b ∉ gather links [node] others := by
    intro member
    refine outside ((class_iff a).mpr ?_)
    exact .step ((class_iff b).mp member) (twoWay a b linked)
  refine mem_left.mpr ⟨?_, notReached⟩
  rcases List.mem_cons.mp (closed a (List.mem_cons_of_mem _ free) b linked) with same | known
  · exact absurd (same ▸ kept node List.mem_cons_self) notReached
  · exact known

/-- A group holds all that some node of it reaches, and every node lies in a group. -/
theorem groups_classes (nodes : List α) (closed : ∀ a ∈ nodes, ∀ b ∈ links a, b ∈ nodes) :
    (∀ group ∈ groups links nodes, ∃ node ∈ nodes, ∀ other, other ∈ group ↔ Reaches links node other) ∧
      ∀ node ∈ nodes, ∃ group ∈ groups links nodes, node ∈ group := by
  fun_induction groups links nodes with
  | case1 => exact ⟨fun _ none => absurd none List.not_mem_nil, fun _ none => absurd none List.not_mem_nil⟩
  | case2 node others group ih =>
    obtain ⟨class_iff, closed'⟩ := first_group twoWay closed
    obtain ⟨classes, covered⟩ := ih closed'
    refine ⟨?_, ?_⟩
    · intro other member
      rcases List.mem_cons.mp member with same | rest
      · exact ⟨node, List.mem_cons_self, same ▸ class_iff⟩
      · obtain ⟨first, inside, exact⟩ := classes other rest
        exact ⟨first, List.mem_cons_of_mem _ (mem_left.mp inside).1, exact⟩
    · intro other member
      by_cases reached : other ∈ group
      · exact ⟨group, List.mem_cons_self, reached⟩
      · rcases List.mem_cons.mp member with same | free
        · exact absurd ((class_iff other).mpr (same ▸ .start)) reached
        · obtain ⟨found, inside, holds⟩ := covered other (mem_left.mpr ⟨free, reached⟩)
          exact ⟨found, List.mem_cons_of_mem _ inside, holds⟩

end Groups

end GridPuzzle.Flood
