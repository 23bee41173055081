import Mathlib.Data.List.Basic
import GridPuzzle.Board.Draft
import GridPuzzle.Proofs.Board.View
import GridPuzzle.Proofs.Legible

/-!
Drawings of boards. Rows of one length that hold no other glyphs than `#` and `.` are read as the board whose text they
are, and of all other rows just the first fault in reading order is told.
-/
namespace GridPuzzle

/-- The lines of a text: what ends at a line feed, less a carriage return right before it, and what comes after the
last line feed unless that is empty. -/
def linesOf (text : String) : List String :=
  let parts := text.toList.splitOn '\n'
  let ended := parts.dropLast.map fun part => if part.getLast? = some '\r' then part.dropLast else part
  (ended ++ parts.getLast?.toList.filter (· ≠ [])).map String.ofList

theorem linesOf_joined {lines : List String} (whole : ∀ line ∈ lines, '\n' ∉ line.toList ∧ '\r' ∉ line.toList) :
    linesOf (String.join (lines.map (· ++ "\n"))) = lines := by
  have kept : (lines.map String.toList).map (fun part => if part.getLast? = some '\r' then part.dropLast else part) =
      lines.map String.toList := by
    rw [List.map_map]
    exact List.map_congr_left fun line member => if_neg fun last => (whole line member).2 (List.mem_of_getLast? last)
  rw [linesOf, splitOn_joined fun line member => (whole line member).1, List.dropLast_concat, kept,
    List.getLast?_concat]
  simp [Function.comp_def]

example : linesOf "#.\r\n\n.\r" = ["#.", "", ".\r"] := by decide

def IsGlyph (glyph : Char) : Prop := glyph = '#' ∨ glyph = '.'

instance (glyph : Char) : Decidable (IsGlyph glyph) := inferInstanceAs (Decidable (_ ∨ _))

/-- A row of a drawing with so many columns. -/
def FitsWidth (width : Nat) (row : String) : Prop := row.length = width ∧ ∀ glyph ∈ row.toList, IsGlyph glyph

/-- The rows draw a board: there are some, of one length that is not zero, and all that they hold are glyphs. -/
def IsDrawing (rows : List String) : Prop := rows ≠ [] ∧ ∃ width, 0 < width ∧ ∀ row ∈ rows, FitsWidth width row

def glyphAt (rows : List String) (row col : Nat) : Option Char := rows[row]?.bind (·.toList[col]?)

/-- The fault that a reader of the rows meets first. Rows have to be as long as the first one. -/
inductive FirstFault (rows : List String) : Fault → Prop
  | noCell : rows = [] ∨ rows.head? = some "" → FirstFault rows .outOfBounds
  | ragged {first row : String} {before after : List String} : rows.head? = some first → first ≠ "" →
      rows = before ++ row :: after → (∀ earlier ∈ before, FitsWidth first.length earlier) →
      row.length ≠ first.length → FirstFault rows .raggedRows
  | unknown {first row : String} {before after : List String} {left right : List Char} {glyph : Char} :
      rows.head? = some first → first ≠ "" →
      rows = before ++ row :: after → (∀ earlier ∈ before, FitsWidth first.length earlier) →
      row.length = first.length → row.toList = left ++ glyph :: right → (∀ earlier ∈ left, IsGlyph earlier) →
      ¬ IsGlyph glyph → FirstFault rows (.unknownGlyph glyph)

namespace Draft

theorem build_eq_ok {draft : Draft} {board : Board} :
    draft.build = .ok board ↔ draft.faults = [] ∧ draft.board = board := by
  unfold build
  split <;> simp_all

theorem build_eq_error {draft : Draft} {faults : List Fault} :
    draft.build = .error faults ↔ draft.faults ≠ [] ∧ draft.faults = faults := by
  unfold build
  split <;> simp_all

variable {draft next last : Draft} {picked picked' : Nat → Nat → Prop} {row col width : Nat} {glyphs : List Char}
  {lines : List String}

/-- The next draft also shades those cells of the board that are picked, and it has the size and the faults of
this one. -/
structure Shades (draft next : Draft) (picked : Nat → Nat → Prop) : Prop where
  size : next.board.SameSize draft.board
  faults : next.faults = draft.faults
  shadedAt : ∀ row col, next.board.ShadedAt row col ↔
    draft.board.ShadedAt row col ∨ picked row col ∧ row < draft.board.rows ∧ col < draft.board.cols

theorem Shades.trans (first : draft.Shades next picked) (second : next.Shades last picked') :
    draft.Shades last fun row col => picked row col ∨ picked' row col where
  size := second.size.trans first.size
  faults := second.faults.trans first.faults
  shadedAt row col := by
    rw [second.shadedAt, first.shadedAt, first.size.1, first.size.2, or_assoc, ← or_and_right]

theorem Shades.congr (shades : draft.Shades next picked) (same : ∀ row col, picked row col ↔ picked' row col) :
    draft.Shades next picked' where
  size := shades.size
  faults := shades.faults
  shadedAt row col := by rw [shades.shadedAt, same]

theorem Shades.refl (draft : Draft) : draft.Shades draft fun _ _ => False :=
  ⟨⟨rfl, rfl⟩, rfl, fun _ _ => by rw [false_and, or_false]⟩

theorem shades_shadePlace (draft : Draft) (row col : Nat) :
    draft.Shades { draft with board := draft.board.shadePlace row col } fun r c => r = row ∧ c = col := by
  refine ⟨draft.board.sameSize_shadePlace row col, rfl, fun r c => ?_⟩
  rw [Board.shadedAt_shadePlace]
  exact or_congr_right (and_congr_right fun same => by rw [same.1, same.2])

/-- Glyphs shade the cells of their row that they draw with `#`. -/
theorem shades_readGlyphs (draft : Draft) (row col : Nat) (known : ∀ glyph ∈ glyphs, IsGlyph glyph) :
    draft.Shades (draft.readGlyphs row col glyphs) fun r c => r = row ∧ ('#', c) ∈ glyphs.zipIdx col := by
  induction glyphs generalizing draft col with
  | nil => exact (Shades.refl draft).congr fun _ _ => by simp [List.zipIdx_nil]
  | cons glyph rest ih =>
    obtain ⟨here, others⟩ := List.forall_mem_cons.mp known
    rcases here with rfl | rfl
    · refine ((draft.shades_shadePlace row col).trans (ih _ _ others)).congr fun r c => ?_
      simp [List.zipIdx_cons, and_or_left]
    · refine (ih _ _ others).congr fun r c => ?_
      simp [List.zipIdx_cons]

theorem readGlyphs_append {left : List Char} (known : ∀ glyph ∈ left, IsGlyph glyph) (right : List Char) :
    draft.readGlyphs row col (left ++ right) =
      (draft.readGlyphs row col left).readGlyphs row (col + left.length) right := by
  induction left generalizing draft col with
  | nil => rfl
  | cons glyph rest ih =>
    obtain ⟨here, others⟩ := List.forall_mem_cons.mp known
    have along : col + (rest.length + 1) = col + 1 + rest.length := by omega
    rw [List.length_cons, along]
    rcases here with rfl | rfl <;> exact ih others

theorem readGlyphs_unknown (draft : Draft) (row col : Nat) {left : List Char} {glyph : Char} (right : List Char)
    (known : ∀ glyph ∈ left, IsGlyph glyph) (unknown : ¬ IsGlyph glyph) :
    (draft.readGlyphs row col (left ++ glyph :: right)).faults = draft.faults ++ [.unknownGlyph glyph] := by
  rw [readGlyphs_append known]
  have apart := not_or.mp unknown
  rw [readGlyphs, if_neg apart.1, if_neg apart.2, fail, (shades_readGlyphs draft row col known).faults]

theorem readRows_cons {line : String} (sound : draft.faults = []) (fits : FitsWidth width line) (rest : List String) :
    draft.readRows width row (line :: rest) =
      (draft.readGlyphs row 0 line.toList).readRows width (row + 1) rest := by
  have still := (shades_readGlyphs draft row 0 fits.2).faults
  rw [readRows, if_neg (not_not.mpr fits.1), if_neg (not_not.mpr (still.trans sound))]

/-- Rows that fit shade the cells that they draw with `#`. -/
theorem shades_readRows (draft : Draft) (row : Nat) (sound : draft.faults = [])
    (fit : ∀ line ∈ lines, FitsWidth width line) :
    draft.Shades (draft.readRows width row lines)
      fun r c => ∃ line, (line, r) ∈ lines.zipIdx row ∧ ('#', c) ∈ line.toList.zipIdx := by
  induction lines generalizing draft row with
  | nil => exact (Shades.refl draft).congr fun _ _ => by simp [List.zipIdx_nil]
  | cons line rest ih =>
    obtain ⟨here, others⟩ := List.forall_mem_cons.mp fit
    have first := shades_readGlyphs draft row 0 here.2
    rw [readRows_cons sound here]
    refine (first.trans (ih _ _ (first.faults.trans sound) others)).congr fun r c => ?_
    simp only [List.zipIdx_cons, List.mem_cons, Prod.mk.injEq, or_and_right, exists_or, and_assoc, exists_eq_left]

theorem readRows_append {before : List String} (sound : draft.faults = [])
    (fit : ∀ line ∈ before, FitsWidth width line) (after : List String) :
    draft.readRows width row (before ++ after) =
      (draft.readRows width row before).readRows width (row + before.length) after := by
  induction before generalizing draft row with
  | nil => rfl
  | cons line rest ih =>
    obtain ⟨here, others⟩ := List.forall_mem_cons.mp fit
    have still := (shades_readGlyphs draft row 0 here.2).faults.trans sound
    have along : row + (rest.length + 1) = row + 1 + rest.length := by omega
    rw [List.cons_append, readRows_cons sound here, readRows_cons sound here, ih still others, List.length_cons, along]

theorem readRows_ragged {before after : List String} {line : String} (sound : draft.faults = [])
    (split : lines = before ++ line :: after) (fit : ∀ earlier ∈ before, FitsWidth width earlier)
    (uneven : line.length ≠ width) : (draft.readRows width row lines).faults = [.raggedRows] := by
  have faults := (shades_readRows draft row sound fit).faults
  rw [split, readRows_append sound fit, readRows, if_pos uneven, fail, faults, sound, List.nil_append]

theorem readRows_unknown {before after : List String} {line : String} {left right : List Char} {glyph : Char}
    (sound : draft.faults = []) (split : lines = before ++ line :: after)
    (fit : ∀ earlier ∈ before, FitsWidth width earlier) (even : line.length = width)
    (glyphs : line.toList = left ++ glyph :: right) (known : ∀ earlier ∈ left, IsGlyph earlier)
    (unknown : ¬ IsGlyph glyph) : (draft.readRows width row lines).faults = [.unknownGlyph glyph] := by
  have stops := readGlyphs_unknown (draft.readRows width row before) (row + before.length) 0 right known unknown
  rw [(shades_readRows draft row sound fit).faults, sound, List.nil_append] at stops
  rw [split, readRows_append sound fit, readRows, if_neg (not_not.mpr even), glyphs, if_pos (by simp [stops]), stops]

theorem walls_readGlyphs : (draft.readGlyphs row col glyphs).board.walls = draft.board.walls := by
  fun_induction draft.readGlyphs row col glyphs with
  | case1 => rfl
  | case2 draft col rest ih =>
    rw [ih, Board.shadePlace]
    split <;> rfl
  | case3 draft col rest _ ih => exact ih
  | case4 => rfl

theorem walls_readRows : (draft.readRows width row lines).board.walls = draft.board.walls := by
  fun_induction draft.readRows width row lines with
  | case1 => rfl
  | case2 => rfl
  | case3 => exact walls_readGlyphs
  | case4 draft row line rest _ next _ ih => exact ih.trans walls_readGlyphs

theorem walls_ofRows (rows : List String) : (ofRows rows).board.walls = [] := by
  simp only [ofRows]
  split
  · exact walls_readRows
  · rfl

/-- The draft that the rows are read into, if there are cells. -/
theorem ofRows_eq {first : String} (head : lines.head? = some first) (inhabited : first ≠ "") :
    ∃ positive, ofRows lines = (blank lines.length first.length positive).readRows first.length 0 lines := by
  have width : (lines.headD "").length = first.length := by rw [List.headD_eq_head?_getD, head, Option.getD_some]
  have some : 0 < lines.length := List.length_pos_iff.mpr fun none => by simp [none] at head
  have many : 0 < first.length := Nat.pos_of_ne_zero fun zero => inhabited (String.length_eq_zero_iff.mp zero)
  refine ⟨⟨some, many⟩, ?_⟩
  simp only [ofRows, width]
  rw [dif_pos ⟨some, many⟩]

theorem ofRows_of_noCell (none : lines = [] ∨ lines.head? = some "") : (ofRows lines).faults = [.outOfBounds] := by
  have width : (lines.headD "").length = 0 := by
    rcases none with rfl | head
    · rfl
    · rw [List.headD_eq_head?_getD, head]
      rfl
  rw [ofRows, dif_neg (by omega)]
  rfl

theorem faults_of_firstFault {fault : Fault} (met : FirstFault lines fault) : (ofRows lines).faults = [fault] := by
  cases met with
  | noCell none => exact ofRows_of_noCell none
  | ragged head inhabited split fit uneven =>
    obtain ⟨positive, read⟩ := ofRows_eq head inhabited
    exact read ▸ readRows_ragged rfl split fit uneven
  | unknown head inhabited split fit even glyphs known strange =>
    obtain ⟨positive, read⟩ := ofRows_eq head inhabited
    exact read ▸ readRows_unknown rfl split fit even glyphs known strange

end Draft

/-- Either all items pass, or there is a first one that does not. -/
theorem all_or_first {α : Type} (passes : α → Prop) (items : List α) : (∀ item ∈ items, passes item) ∨
    ∃ left item right, items = left ++ item :: right ∧ (∀ earlier ∈ left, passes earlier) ∧ ¬ passes item := by
  classical
  cases met : items.find? (¬ passes ·) with
  | none => exact .inl (by simpa using met)
  | some item =>
    obtain ⟨fails, left, right, split, before⟩ := List.find?_eq_some_iff_append.mp met
    exact .inr ⟨left, item, right, split, by simpa using before, by simpa using fails⟩

theorem drawing_or_fault (rows : List String) : IsDrawing rows ∨ ∃ fault, FirstFault rows fault := by
  by_cases none : rows = [] ∨ rows.head? = some ""
  · exact .inr ⟨_, .noCell none⟩
  · obtain ⟨some, inhabited⟩ := not_or.mp none
    obtain ⟨first, rest, same⟩ := List.exists_cons_of_ne_nil some
    have head : rows.head? = Option.some first := same ▸ rfl
    have inhabited : first ≠ "" := fun empty => inhabited (empty ▸ head)
    rcases all_or_first (FitsWidth first.length) rows with fit | ⟨before, row, after, split, fit, fails⟩
    · exact .inl ⟨some, first.length, Nat.pos_of_ne_zero (mt String.length_eq_zero_iff.mp inhabited), fit⟩
    · by_cases even : row.length = first.length
      · rcases all_or_first IsGlyph row.toList with known | ⟨left, glyph, right, glyphs, known, unknown⟩
        · exact absurd ⟨even, known⟩ fails
        · exact .inr ⟨_, .unknown head inhabited split fit even glyphs known unknown⟩
      · exact .inr ⟨_, .ragged head inhabited split fit even⟩

namespace Board

variable {board : Board} {rows rows' : List String}

/-- The rows draw the board: they have its size, and `#` stands where it is shaded. -/
structure DrawnBy (board : Board) (rows : List String) : Prop where
  height : rows.length = board.rows
  fit : ∀ row ∈ rows, FitsWidth board.cols row
  shadedAt : ∀ row col, board.ShadedAt row col ↔ glyphAt rows row col = some '#'

def lines (board : Board) : List String := board.shading.toList.map fun row => String.ofList (row.toList.map glyph)

theorem text_eq (board : Board) : board.text = String.join (board.lines.map (· ++ "\n")) := by
  simp [text, lines, Function.comp_def]

theorem drawnBy_lines (board : Board) : board.DrawnBy board.lines where
  height := by simp [lines]
  fit := by
    intro row member
    obtain ⟨shades, _, rfl⟩ := List.mem_map.mp member
    refine ⟨by simp, fun char inside => ?_⟩
    rw [String.toList_ofList] at inside
    obtain ⟨shaded, _, rfl⟩ := List.mem_map.mp inside
    cases shaded
    · exact .inr rfl
    · exact .inl rfl
  shadedAt := by
    intro row col
    by_cases inRow : row < board.rows
    · by_cases inCol : col < board.cols
      · have glyphs : glyphAt board.lines row col = some (glyph board.shading[row][col]) := by
          simp [glyphAt, lines, inRow, inCol]
        rw [glyphs, ShadedAt, exists_prop_of_true inRow, exists_prop_of_true inCol]
        cases board.shading[row][col] <;> decide
      · have none : glyphAt board.lines row col = none := by simp [glyphAt, lines, inRow, inCol]
        simp [none, ShadedAt, inCol]
    · have none : glyphAt board.lines row col = none := by simp [glyphAt, lines, inRow]
      simp [none, ShadedAt, inRow]

theorem DrawnBy.rows_eq (drawn : board.DrawnBy rows) (drawn' : board.DrawnBy rows') : rows = rows' := by
  refine List.ext_getElem (drawn.height.trans drawn'.height.symm) fun row inRow inRow' => String.toList_inj.mp ?_
  have fits := drawn.fit _ (List.getElem_mem inRow)
  have fits' := drawn'.fit _ (List.getElem_mem inRow')
  have long : rows[row].toList.length = rows'[row].toList.length := by
    rw [String.length_toList, String.length_toList, fits.1, fits'.1]
  refine List.ext_getElem long fun col inCol inCol' => ?_
  have alike : rows[row].toList[col] = '#' ↔ rows'[row].toList[col] = '#' := by
    have here := (drawn.shadedAt row col).symm.trans (drawn'.shadedAt row col)
    simpa [glyphAt, inRow, inRow', inCol, inCol'] using here
  rcases fits.2 _ (List.getElem_mem inCol) with shaded | unshaded
  · rw [shaded, alike.mp shaded]
  · rcases fits'.2 _ (List.getElem_mem inCol') with shaded' | unshaded'
    · rw [shaded', alike.mpr shaded']
    · rw [unshaded, unshaded']

theorem DrawnBy.text_eq (drawn : board.DrawnBy rows) : board.text = String.join (rows.map (· ++ "\n")) := by
  rw [Board.text_eq, drawn.rows_eq board.drawnBy_lines]

theorem DrawnBy.isDrawing (drawn : board.DrawnBy rows) : IsDrawing rows :=
  ⟨List.ne_nil_of_length_pos (drawn.height ▸ board.positive.1), board.cols, board.positive.2, drawn.fit⟩

theorem DrawnBy.linesOf_text (drawn : board.DrawnBy rows) : linesOf board.text = rows := by
  rw [drawn.text_eq]
  refine linesOf_joined fun row member => ⟨fun feed => ?_, fun ret => ?_⟩
  · exact absurd ((drawn.fit row member).2 _ feed) (by decide)
  · exact absurd ((drawn.fit row member).2 _ ret) (by decide)

end Board

namespace Draft

/-- A drawing is read as the board that it draws. -/
theorem exists_drawnBy {rows : List String} (drawing : IsDrawing rows) :
    ∃ board : Board, board.DrawnBy rows ∧ board.walls = [] ∧ (ofRows rows).build = .ok board := by
  obtain ⟨some, width, many, fit⟩ := drawing
  obtain ⟨first, rest, same⟩ := List.exists_cons_of_ne_nil some
  have head : rows.head? = Option.some first := same ▸ rfl
  have even : first.length = width := (fit first (same ▸ List.mem_cons_self)).1
  have inhabited : first ≠ "" := fun empty => by simp [empty, many.ne] at even
  rw [← even] at fit
  obtain ⟨positive, read⟩ := ofRows_eq head inhabited
  have shades := shades_readRows (blank rows.length first.length positive) 0 rfl fit
  rw [← read] at shades
  refine ⟨(ofRows rows).board, ⟨shades.size.1.symm, shades.size.2 ▸ fit, fun row col => ?_⟩,
    walls_ofRows rows, build_eq_ok.mpr ⟨shades.faults, rfl⟩⟩
  have inside (line : String) (onRow : rows[row]? = Option.some line) (onCol : line.toList[col]? = Option.some '#') :
      row < rows.length ∧ col < first.length := by
    obtain ⟨inRow, at_⟩ := List.getElem?_eq_some_iff.mp onRow
    obtain ⟨inCol, _⟩ := List.getElem?_eq_some_iff.mp onCol
    rw [String.length_toList, (fit line (at_ ▸ List.getElem_mem inRow)).1] at inCol
    exact ⟨inRow, inCol⟩
  rw [shades.shadedAt, glyphAt, Option.bind_eq_some_iff]
  simp only [List.mem_zipIdx_iff_getElem?]
  constructor
  · rintro (already | ⟨drawn, _⟩)
    · exact absurd already (Board.not_shadedAt_blank positive)
    · exact drawn
  · rintro ⟨line, onRow, onCol⟩
    exact .inr ⟨⟨line, onRow, onCol⟩, inside line onRow onCol⟩

theorem build_of_firstFault {rows : List String} {fault : Fault} (met : FirstFault rows fault) :
    (ofRows rows).build = .error [fault] := by
  have faults := faults_of_firstFault met
  exact build_eq_error.mpr ⟨by simp [faults], faults⟩

theorem isDrawing_of_build {rows : List String} {board : Board} (built : (ofRows rows).build = .ok board) :
    IsDrawing rows := by
  refine (drawing_or_fault rows).resolve_right fun ⟨fault, met⟩ => ?_
  rw [build_of_firstFault met] at built
  cases built

theorem drawnBy_of_build {rows : List String} {board : Board} (built : (ofRows rows).build = .ok board) :
    board.DrawnBy rows := by
  obtain ⟨other, drawn, _, same⟩ := exists_drawnBy (isDrawing_of_build built)
  rw [built] at same
  cases same
  exact drawn

theorem exists_firstFault {rows : List String} {faults : List Fault} (refused : (ofRows rows).build = .error faults) :
    ∃ fault, faults = [fault] ∧ FirstFault rows fault := by
  rcases drawing_or_fault rows with drawing | ⟨fault, met⟩
  · obtain ⟨board, _, _, built⟩ := exists_drawnBy drawing
    rw [built] at refused
    cases refused
  · rw [build_of_firstFault met] at refused
    cases refused
    exact ⟨fault, rfl, met⟩

theorem build_linesOf_text (board : Board) : (ofRows (linesOf board.text)).build = .ok { board with walls := [] } := by
  have drawn := board.drawnBy_lines
  obtain ⟨read, drawn', unwalled, built⟩ := exists_drawnBy drawn.isDrawing
  have width : read.cols = board.cols := by
    have some : 0 < board.lines.length := drawn.height ▸ board.positive.1
    have member := List.getElem_mem some
    exact (drawn'.fit _ member).1.symm.trans (drawn.fit _ member).1
  rw [drawn.linesOf_text, built]
  exact congrArg Except.ok (Board.ext_of_shadedAt (drawn'.height.symm.trans drawn.height) width
    (fun row col => (drawn'.shadedAt row col).trans (drawn.shadedAt row col).symm) unwalled)

/-- Rows are read as a board if and only if they are a drawing, and the text of that board has these rows as its
lines. Other rows leave one fault, which is the first one that a reader meets. The lines of the text of any board are
read as that board without its walls. -/
theorem reads_drawings (rows : List String) :
    ((∃ board, (ofRows rows).build = .ok board) ↔ IsDrawing rows) ∧
      (∀ board, (ofRows rows).build = .ok board →
        (board.rows = rows.length ∧ ∀ row ∈ rows, row.length = board.cols) ∧
        (∀ row col, board.ShadedAt row col ↔ glyphAt rows row col = some '#') ∧
        (∀ cell, board.isShaded cell = true ↔
          ∃ row col : Nat, (cell.row.val = row ∧ cell.col.val = col) ∧ glyphAt rows row col = some '#') ∧
        board.text = String.join (rows.map (· ++ "\n"))) ∧
      (∀ faults, (ofRows rows).build = .error faults ↔ ∃ fault, faults = [fault] ∧ FirstFault rows fault) ∧
      ∀ board : Board, (ofRows (linesOf board.text)).build = .ok { board with walls := [] } := by
  refine ⟨⟨fun ⟨_, built⟩ => isDrawing_of_build built, fun drawing => ?_⟩, fun board built => ?_,
    fun faults => ⟨exists_firstFault, ?_⟩, build_linesOf_text⟩
  · obtain ⟨board, _, _, built⟩ := exists_drawnBy drawing
    exact ⟨board, built⟩
  · have drawn := drawnBy_of_build built
    refine ⟨⟨drawn.height.symm, fun row member => (drawn.fit row member).1⟩, drawn.shadedAt, fun cell => ?_,
      drawn.text_eq⟩
    simp only [Board.isShaded_iff_shadedAt, drawn.shadedAt]
  · rintro ⟨fault, rfl, met⟩
    exact build_of_firstFault met

/-- A checked board, and rows where the second one is both too short and unknown. -/
theorem reads_drawings_checked :
    (∃ board, (ofRows ["#.#", ".#."]).build = .ok board ∧ board.rows = 2 ∧ board.isShaded (.of 1 1) = true ∧
      board.text = "#.#\n.#.\n" ∧ (ofRows (linesOf board.text)).build = .ok { board with walls := [] }) ∧
    FirstFault ["#.", "x", ".?"] .raggedRows ∧ (ofRows ["#.", "x", ".?"]).build = .error [.raggedRows] := by
  have fit : ∀ row ∈ ["#.#", ".#."], FitsWidth 3 row := by
    simp only [List.forall_mem_cons]
    exact ⟨⟨rfl, by simp [IsGlyph]⟩, ⟨rfl, by simp [IsGlyph]⟩, List.forall_mem_nil _⟩
  have fit' : ∀ row ∈ ["#."], FitsWidth 2 row := List.forall_mem_singleton.mpr ⟨rfl, by simp [IsGlyph]⟩
  have drawing : IsDrawing ["#.#", ".#."] := ⟨by decide, 3, by decide, fit⟩
  have ragged : FirstFault ["#.", "x", ".?"] .raggedRows :=
    .ragged rfl (by decide) (show _ = ["#."] ++ "x" :: [".?"] from rfl) fit' (by decide)
  obtain ⟨accepts, shows, _, back⟩ := reads_drawings ["#.#", ".#."]
  obtain ⟨board, built⟩ := accepts.mpr drawing
  obtain ⟨⟨height, _⟩, _, shaded, text⟩ := shows board built
  refine ⟨⟨board, built, height, (shaded _).mpr ⟨1, 1, by decide, by decide⟩, text, back board⟩, ragged, ?_⟩
  exact ((reads_drawings ["#.", "x", ".?"]).2.2.1 _).mpr ⟨_, rfl, ragged⟩

end Draft

end GridPuzzle
