/-!
Flooding a finite graph. What has been reached leaves the stock of free nodes, so that each node is
visited once and the search ends because the stock does.
-/
namespace GridPuzzle.Flood

variable {α : Type} [DecidableEq α]

inductive Reaches (links : α → List α) (start : α) : α → Prop
  | start : Reaches links start start
  | step {node next : α} : Reaches links start node → next ∈ links node → Reaches links start next

def taken (others free : List α) : List α := free.filter (· ∈ others)

def left (others free : List α) : List α := free.filter (· ∉ others)

theorem mem_taken {others free : List α} {node : α} :
    node ∈ taken others free ↔ node ∈ free ∧ node ∈ others := by
  simp [taken]

theorem mem_left {others free : List α} {node : α} :
    node ∈ left others free ↔ node ∈ free ∧ node ∉ others := by
  simp [left]

theorem length_taken_add_left (others free : List α) :
    (taken others free).length + (left others free).length = free.length := by
  unfold taken left
  induction free with
  | nil => rfl
  | cons node rest ih =>
    by_cases member : node ∈ others <;> simp only [List.filter_cons, member, not_true, not_false_iff,
      decide_true, decide_false, if_true, Bool.false_eq_true, if_false, List.length_cons] <;> omega

/-- The nodes that wait, and all free ones that a path of links joins to them. -/
def gather (links : α → List α) (waiting free : List α) : List α :=
  match waiting with
  | [] => []
  | node :: others =>
    let linked := links node
    node :: gather links (others ++ taken linked free) (left linked free)
termination_by waiting.length + free.length
decreasing_by
  have split := length_taken_add_left (links node) free
  simp only [List.length_append, List.length_cons]
  omega

/-- The nodes in groups, each of which holds what is joined to its first node. -/
def groups (links : α → List α) (nodes : List α) : List (List α) :=
  match nodes with
  | [] => []
  | node :: others =>
    let group := gather links [node] others
    group :: groups links (left group others)
termination_by nodes.length
decreasing_by
  have split := length_taken_add_left (gather links [node] others) others
  simp only [List.length_cons]
  omega

end GridPuzzle.Flood
