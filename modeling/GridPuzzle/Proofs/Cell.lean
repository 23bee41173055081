import Mathlib.Data.List.Pairwise
import GridPuzzle.Adjacency
import GridPuzzle.Proofs.Outcome

/-!
Arithmetic and order of cells. Steps and distances have exactly the values that the integers give, and
are refused exactly when these do not fit. Sorting keeps the cells of a list and makes them increase.
-/
namespace GridPuzzle

/-- A coordinate does not fit. -/
def Error.IsOverflow (error : Error) : Prop := ∃ operation, error = .overflow operation

/-- What is refused for overflows only overflows exactly if it has no result. -/
theorem Outcome.RefusedOnly.overflows_iff {α : Type} {outcome : Except Error α}
    (only : Outcome.RefusedOnly Error.IsOverflow outcome) :
    (∃ operation, outcome = .error (.overflow operation)) ↔ ¬ ∃ value, outcome = .ok value := by
  cases outcome with
  | ok value => simp
  | error error =>
    obtain ⟨operation, rfl⟩ := only error rfl
    simp

namespace Coord

def greatest : Coord := ⟨2147483647, by decide⟩

theorem checked_ok {operation : Operation} {value : Int}
    (fits : -2147483648 ≤ value ∧ value ≤ 2147483647) :
    checked operation value = .ok ⟨value, fits⟩ := by
  simp [checked, fits]

theorem checked_refusedOnly (operation : Operation) (value : Int) :
    Outcome.RefusedOnly Error.IsOverflow (checked operation value) := by
  unfold checked
  split
  · exact .of_ok _
  · exact fun error same => ⟨operation, (Except.error.inj same).symm⟩

private theorem foldl_picks (pick : Coord → Coord → Coord) (outdoes : Int → Int → Prop)
    (refl : ∀ value, outdoes value value)
    (trans : ∀ a b c, outdoes a b → outdoes b c → outdoes a c)
    (picks : ∀ a b, (pick a b = a ∨ pick a b = b) ∧ outdoes (pick a b).val a.val ∧
      outdoes (pick a b).val b.val) (coords : List Coord) (start : Coord) :
    coords.foldl pick start ∈ start :: coords ∧
      ∀ coord ∈ start :: coords, outdoes (coords.foldl pick start).val coord.val := by
  induction coords generalizing start with
  | nil =>
    refine ⟨List.mem_singleton_self _, fun coord member => ?_⟩
    rw [List.mem_singleton.mp member]
    exact refl _
  | cons head rest ih =>
    obtain ⟨member, bound⟩ := ih (pick start head)
    obtain ⟨which, first, second⟩ := picks start head
    have best := bound _ List.mem_cons_self
    rw [List.foldl_cons]
    refine ⟨?_, fun coord inside => ?_⟩
    · rcases List.mem_cons.mp member with same | later
      · rw [same]
        rcases which with left | right
        · rw [left]
          exact List.mem_cons_self
        · rw [right]
          exact List.mem_cons_of_mem _ List.mem_cons_self
      · exact List.mem_cons_of_mem _ (List.mem_cons_of_mem _ later)
    · rcases List.mem_cons.mp inside with rfl | others
      · exact trans _ _ _ best first
      · rcases List.mem_cons.mp others with rfl | later
        · exact trans _ _ _ best second
        · exact bound _ (List.mem_cons_of_mem _ later)

theorem span?_cons (first : Coord) (rest : List Coord) : ∃ low high,
    span? (first :: rest) = some (low, high) ∧ low ∈ first :: rest ∧ high ∈ first :: rest ∧
      ∀ coord ∈ first :: rest, low.val ≤ coord.val ∧ coord.val ≤ high.val := by
  have least := foldl_picks Coord.min (· ≤ ·) Int.le_refl
    (fun _ _ _ => Int.le_trans) (by intro a b; unfold Coord.min; split <;> simp <;> omega) rest first
  have greatest := foldl_picks Coord.max (· ≥ ·) Int.le_refl
    (fun _ _ _ up down => Int.le_trans down up) (by intro a b; unfold Coord.max; split <;> simp <;> omega)
    rest first
  exact ⟨_, _, rfl, least.1, greatest.1, fun coord member => ⟨least.2 coord member, greatest.2 coord member⟩⟩

end Coord

namespace Cell

theorem ext {a b : Cell} (rows : a.row.val = b.row.val) (cols : a.col.val = b.col.val) : a = b := by
  cases a; cases b
  simp only [mk.injEq]
  exact ⟨Coord.ext rows, Coord.ext cols⟩

theorem ext_iff {a b : Cell} : a = b ↔ a.row.val = b.row.val ∧ a.col.val = b.col.val :=
  ⟨fun same => same ▸ ⟨rfl, rfl⟩, fun same => ext same.1 same.2⟩

theorem shift_eq_ok {cell offset target : Cell} :
    cell.shift offset = .ok target ↔
      target.row.val = cell.row.val + offset.row.val ∧ target.col.val = cell.col.val + offset.col.val := by
  simp only [shift, Outcome.bind_eq_ok, Outcome.pure_eq_ok, Coord.add, Coord.checked_eq_ok_iff]
  constructor
  · intro parts
    obtain ⟨row, rows, col, cols, rfl⟩ := parts
    exact ⟨rows, cols⟩
  · intro parts
    obtain ⟨rows, cols⟩ := parts
    exact ⟨target.row, rows, target.col, cols, rfl⟩

theorem exists_shift_iff {cell offset : Cell} : (∃ target, cell.shift offset = .ok target) ↔
    (-2147483648 ≤ cell.row.val + offset.row.val ∧ cell.row.val + offset.row.val ≤ 2147483647) ∧
      (-2147483648 ≤ cell.col.val + offset.col.val ∧ cell.col.val + offset.col.val ≤ 2147483647) := by
  simp only [shift_eq_ok]
  constructor
  · intro parts
    obtain ⟨target, rows, cols⟩ := parts
    rw [← rows, ← cols]
    exact ⟨target.row.inRange, target.col.inRange⟩
  · intro parts
    obtain ⟨rows, cols⟩ := parts
    exact ⟨⟨⟨_, rows⟩, ⟨_, cols⟩⟩, rfl, rfl⟩

theorem shift_refusedOnly (cell offset : Cell) : Outcome.RefusedOnly Error.IsOverflow (cell.shift offset) :=
  .bind (Coord.checked_refusedOnly _ _) fun _ _ => .bind (Coord.checked_refusedOnly _ _) fun _ _ => .of_ok _

theorem sharesSide_eq_ok {a b : Cell} {answer : Bool} :
    a.sharesSide b = .ok answer ↔
      (a.row.val - b.row.val).natAbs + (a.col.val - b.col.val).natAbs ≤ 2147483647 ∧
        (answer = true ↔ (a.row.val - b.row.val).natAbs + (a.col.val - b.col.val).natAbs = 1) := by
  simp only [sharesSide, Outcome.bind_eq_ok, Outcome.pure_eq_ok, Coord.sub, Coord.abs, Coord.add,
    Coord.checked_eq_ok_iff]
  constructor
  · intro parts
    obtain ⟨rowStep, rows, rowDistance, rowAbs, colStep, cols, colDistance, colAbs, distance, sum, rfl⟩ := parts
    have fits := distance.inRange
    rw [rows] at rowAbs
    rw [cols] at colAbs
    rw [beq_iff_eq]
    omega
  · intro parts
    obtain ⟨fits, same⟩ := parts
    refine ⟨⟨a.row.val - b.row.val, by omega⟩, rfl, ⟨(a.row.val - b.row.val).natAbs, by omega⟩, rfl,
      ⟨a.col.val - b.col.val, by omega⟩, rfl, ⟨(a.col.val - b.col.val).natAbs, by omega⟩, rfl,
      ⟨(a.row.val - b.row.val).natAbs + (a.col.val - b.col.val).natAbs, by omega⟩, rfl, ?_⟩
    rw [Bool.eq_iff_iff, same, beq_iff_eq]
    dsimp only
    omega

theorem sharesCorner_eq_ok {a b : Cell} {answer : Bool} :
    a.sharesCorner b = .ok answer ↔
      ((a.row.val - b.row.val).natAbs ≤ 2147483647 ∧
        ((a.row.val - b.row.val).natAbs = 1 → (a.col.val - b.col.val).natAbs ≤ 2147483647)) ∧
        (answer = true ↔ (a.row.val - b.row.val).natAbs = 1 ∧ (a.col.val - b.col.val).natAbs = 1) := by
  simp only [sharesCorner, Outcome.bind_eq_ok, Outcome.pure_eq_ok, Outcome.ite_eq_ok, Coord.sub,
    Coord.abs, Coord.checked_eq_ok_iff]
  constructor
  · intro parts
    obtain ⟨rowStep, rows, rowDistance, rowAbs, ⟨one, colStep, cols, colDistance, colAbs, rfl⟩ | ⟨far, rfl⟩⟩ :=
      parts
    · have fits := colDistance.inRange
      rw [rows] at rowAbs
      rw [cols] at colAbs
      rw [beq_iff_eq]
      omega
    · have fits := rowDistance.inRange
      rw [rows] at rowAbs
      simp only [Bool.false_eq_true, false_iff]
      omega
  · intro parts
    obtain ⟨⟨rowFits, colFits⟩, same⟩ := parts
    refine ⟨⟨a.row.val - b.row.val, by omega⟩, rfl, ⟨(a.row.val - b.row.val).natAbs, by omega⟩, rfl, ?_⟩
    by_cases one : (a.row.val - b.row.val).natAbs = 1
    · have fits := colFits one
      refine .inl ⟨by dsimp only; omega, ⟨a.col.val - b.col.val, by omega⟩, rfl,
        ⟨(a.col.val - b.col.val).natAbs, by omega⟩, rfl, ?_⟩
      rw [Bool.eq_iff_iff, same, beq_iff_eq]
      dsimp only
      omega
    · refine .inr ⟨by dsimp only; omega, ?_⟩
      rw [Bool.eq_iff_iff, same]
      simp [one]

theorem sharesSide_refusedOnly (a b : Cell) : Outcome.RefusedOnly Error.IsOverflow (a.sharesSide b) := by
  refine .bind (Coord.checked_refusedOnly _ _) fun _ _ => .bind (Coord.checked_refusedOnly _ _) fun _ _ => ?_
  refine .bind (Coord.checked_refusedOnly _ _) fun _ _ => .bind (Coord.checked_refusedOnly _ _) fun _ _ => ?_
  exact .bind (Coord.checked_refusedOnly _ _) fun _ _ => .of_ok _

theorem sharesCorner_refusedOnly (a b : Cell) : Outcome.RefusedOnly Error.IsOverflow (a.sharesCorner b) := by
  refine .bind (Coord.checked_refusedOnly _ _) fun _ _ => .bind (Coord.checked_refusedOnly _ _) fun rows _ => ?_
  by_cases one : rows.val = 1
  · rw [if_pos one]
    refine .bind (Coord.checked_refusedOnly _ _) fun _ _ => .bind (Coord.checked_refusedOnly _ _) fun _ _ => ?_
    exact .of_ok _
  · rw [if_neg one]
    exact .of_ok _

theorem lt_iff {a b : Cell} : a < b ↔
    a.row.val < b.row.val ∨ (a.row.val = b.row.val ∧ a.col.val < b.col.val) := Iff.rfl

theorem not_lt_self (cell : Cell) : ¬ cell < cell := by
  rw [lt_iff]
  omega

theorem lt_trans {a b c : Cell} (first : a < b) (second : b < c) : a < c := by
  rw [lt_iff] at *
  omega

theorem lt_asymm {a b : Cell} (less : a < b) : ¬ b < a := by
  rw [lt_iff] at *
  omega

theorem lt_or_gt {a b : Cell} (different : a ≠ b) : a < b ∨ b < a := by
  rw [Ne, ext_iff] at different
  rw [lt_iff, lt_iff]
  omega

def Increasing (cells : List Cell) : Prop := cells.Pairwise (· < ·)

theorem Increasing.nodup {cells : List Cell} (increasing : Increasing cells) : cells.Nodup := by
  refine List.Pairwise.imp ?_ increasing
  intro a b less same
  exact not_lt_self b (same ▸ less)

theorem Increasing.eq {first second : List Cell} (increasing : Increasing first)
    (increasing' : Increasing second) (same : ∀ cell, cell ∈ first ↔ cell ∈ second) :
    first = second := by
  have permuted := (List.perm_ext_iff_of_nodup increasing.nodup increasing'.nodup).mpr same
  refine permuted.eq_of_pairwise ?_ increasing increasing'
  intro a b _ _ less greater
  exact absurd greater (lt_asymm less)

theorem Increasing.head?_eq {cells : List Cell} (increasing : Increasing cells) {least : Cell}
    (member : least ∈ cells) (first : ∀ cell ∈ cells, ¬ cell < least) : cells.head? = some least := by
  cases cells with
  | nil => cases member
  | cons head rest =>
    rcases List.mem_cons.mp member with rfl | inRest
    · rfl
    · exact absurd ((List.pairwise_cons.mp increasing).1 least inRest) (first head List.mem_cons_self)

theorem mem_insert {cell other : Cell} {cells : List Cell} :
    other ∈ insert cell cells ↔ other = cell ∨ other ∈ cells := by
  induction cells with
  | nil => simp [insert]
  | cons head rest ih =>
    unfold insert
    split
    · simp
    · split
      · rename_i same
        subst same
        simp
      · rw [List.mem_cons, ih, List.mem_cons]
        exact or_left_comm

theorem Increasing.insert {cells : List Cell} (increasing : Increasing cells) (cell : Cell) :
    Increasing (Cell.insert cell cells) := by
  induction cells with
  | nil => exact List.pairwise_singleton _ _
  | cons head rest ih =>
    obtain ⟨first, others⟩ := List.pairwise_cons.mp increasing
    unfold Cell.insert
    split
    · rename_i less
      refine List.pairwise_cons.mpr ⟨?_, increasing⟩
      intro other member
      rcases List.mem_cons.mp member with same | inRest
      · exact same ▸ less
      · exact lt_trans less (first other inRest)
    · rename_i notLess
      split
      · exact increasing
      · rename_i different
        refine List.pairwise_cons.mpr ⟨?_, ih others⟩
        intro other member
        rcases mem_insert.mp member with same | inRest
        · exact same ▸ (lt_or_gt different).resolve_left notLess
        · exact first other inRest

@[simp] theorem mem_sort {cell : Cell} {cells : List Cell} : cell ∈ sort cells ↔ cell ∈ cells := by
  induction cells with
  | nil => simp [sort]
  | cons head rest ih =>
    change cell ∈ insert head (sort rest) ↔ _
    rw [mem_insert, ih, List.mem_cons]

theorem sort_ne_nil {cells : List Cell} (nonempty : cells ≠ []) : sort cells ≠ [] := by
  obtain ⟨cell, member⟩ := List.exists_mem_of_ne_nil _ nonempty
  exact List.ne_nil_of_mem (mem_sort.mpr member)

theorem sort_increasing (cells : List Cell) : Increasing (sort cells) := by
  induction cells with
  | nil => exact List.Pairwise.nil
  | cons head rest ih => exact ih.insert head

theorem Increasing.sort_eq {cells : List Cell} (increasing : Increasing cells) : sort cells = cells :=
  (sort_increasing cells).eq increasing fun _ => mem_sort

theorem exists_least {cells : List Cell} (nonempty : cells ≠ []) :
    ∃ least ∈ cells, ∀ cell ∈ cells, ¬ cell < least := by
  have increasing := sort_increasing cells
  obtain ⟨least, rest, sorted⟩ := List.exists_cons_of_ne_nil (sort_ne_nil nonempty)
  rw [sorted] at increasing
  refine ⟨least, mem_sort.mp (sorted ▸ List.mem_cons_self), fun cell member less => ?_⟩
  rw [← mem_sort, sorted] at member
  rcases List.mem_cons.mp member with rfl | later
  · exact not_lt_self _ less
  · exact lt_asymm less ((List.pairwise_cons.mp increasing).1 cell later)

/-- Some of the cells lie farthest up, down, left and right, and their rows and columns are the span of all. -/
theorem exists_extremes {cells : List Cell} (nonempty : cells ≠ []) :
    ∃ top ∈ cells, ∃ bottom ∈ cells, ∃ left ∈ cells, ∃ right ∈ cells,
      Coord.span? (cells.map row) = some (top.row, bottom.row) ∧
      Coord.span? (cells.map col) = some (left.col, right.col) ∧
      ∀ cell ∈ cells, (top.row.val ≤ cell.row.val ∧ cell.row.val ≤ bottom.row.val) ∧
        left.col.val ≤ cell.col.val ∧ cell.col.val ≤ right.col.val := by
  obtain ⟨first, rest, rfl⟩ := List.exists_cons_of_ne_nil nonempty
  obtain ⟨_, _, rowSpan, topIn, bottomIn, rowBounds⟩ := Coord.span?_cons first.row (rest.map row)
  obtain ⟨_, _, colSpan, leftIn, rightIn, colBounds⟩ := Coord.span?_cons first.col (rest.map col)
  rw [← List.map_cons] at topIn bottomIn leftIn rightIn rowBounds colBounds
  obtain ⟨top, topListed, rfl⟩ := List.mem_map.mp topIn
  obtain ⟨bottom, bottomListed, rfl⟩ := List.mem_map.mp bottomIn
  obtain ⟨left, leftListed, rfl⟩ := List.mem_map.mp leftIn
  obtain ⟨right, rightListed, rfl⟩ := List.mem_map.mp rightIn
  exact ⟨top, topListed, bottom, bottomListed, left, leftListed, right, rightListed, rowSpan, colSpan,
    fun cell member => ⟨rowBounds _ (List.mem_map_of_mem member), colBounds _ (List.mem_map_of_mem member)⟩⟩

end Cell

end GridPuzzle
