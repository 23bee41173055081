import Mathlib.Algebra.Group.Nat.Defs
import GridPuzzle.Template.SourceBits
import GridPuzzle.Proofs.Template.Source

/-!
Sources told apart by bits. In a model each bit of a source's number, set or not, has spread through the
whole group of the source, so that two numbers in one group clash at some bit.
-/
namespace GridPuzzle

/-- The relation holds of a cell and of a position among bits. -/
def Fact.atBit (relation : String) (row col position : Int) : Fact :=
  ⟨relation, [.num row, .num col, .num position]⟩

@[simp] theorem Fact.atBit_inj {relation relation' : String} {row col position row' col' position' : Int} :
    atBit relation row col position = atBit relation' row' col' position' ↔
      relation = relation' ∧ row = row' ∧ col = col' ∧ position = position' := by
  simp [atBit]

namespace Template

variable {board : Board} {color : Color} {kind : Adjacency} {world : World} {includeSelf set : Bool}

/-- A source with its number. -/
structure Numbered where
  source : Cell
  id : UInt64

/-- The bits of all sources, as many as a count of sources needs, and the rules that keep them apart. -/
def numbered (sources : List Numbered) (count : Nat) (color : Color) (kind : Adjacency) : Program :=
  sources.foldr (fun own rest => sourceBits own.source own.id 0 (bitWidth count) ++ rest)
    (separatedByBits color kind)

def bitSeed (set : Bool) : String := if set then presentBit else absentBit

def bitFlag (set : Bool) (color : Color) (kind : Adjacency) : String :=
  bitLabel (if set then "bit" else "no_bit") color kind

def atPosition (relation : String) (place : Place) : Atom := ⟨relation, place.args ++ [.var "B" 0]⟩

def atAnyPosition (relation : String) (place : Place) : Atom := ⟨relation, place.args ++ [.anon]⟩

variable {sources : List Numbered} {count : Nat}

theorem bitWidth_pos (count : Nat) : 0 < bitWidth count := by
  unfold bitWidth
  split <;> omega

theorem mem_numbered {statement : Statement} : statement ∈ (numbered sources count color kind).statements ↔
    (∃ own ∈ sources, ∃ bit < bitWidth count, statement = .fact
      ⟨bitSeed (own.id.toNat.testBit bit), (Place.ofCell own.source).args ++ [.int bit]⟩) ∨
    statement ∈ (separatedByBits color kind).statements := by
  induction sources with
  | nil => simp [numbered]
  | cons own rest ih =>
    change statement ∈ _ ++ (numbered rest count color kind).statements ↔ _
    rw [List.mem_append, ih, List.exists_mem_cons_iff, or_assoc]
    refine or_congr_left ?_
    simp only [sourceBits, bitSeed, List.mem_map, List.mem_range'_1, Nat.sub_zero, Nat.zero_add, Nat.zero_le,
      true_and, @eq_comm _ _ statement]

theorem fact_mem_numbered {atom : Atom} : .fact atom ∈ (numbered sources count color kind).statements ↔
    ∃ own ∈ sources, ∃ bit < bitWidth count, atom =
      ⟨bitSeed (own.id.toNat.testBit bit), (Place.ofCell own.source).args ++ [.int bit]⟩ := by
  rw [mem_numbered]
  simp [separatedByBits]

theorem rule_mem_numbered {head : Atom} {body : List Literal} :
    .rule head body ∈ (numbered sources count color kind).statements ↔
      ∃ set, head = atPosition (bitFlag set color kind) .here ∧
        (body = [.holds (atPosition (bitSeed set) .here)] ∨
          body = .holds (atPosition (bitFlag set color kind) .other) ::
            inColor (some color) ++ [.holds (kind.joins .here .other)]) := by
  rw [mem_numbered]
  simp only [Bool.exists_bool]
  simp [separatedByBits, bitFlag, bitSeed, atPosition, inColor]
  tauto

theorem constraint_mem_numbered {body : List Literal} :
    .constraint body ∈ (numbered sources count color kind).statements ↔
      body = [.holds (atPosition (bitFlag true color kind) .here),
        .holds (atPosition (bitFlag false color kind) .here)] ∨
      body = inColor (some color) ++ [.fails (atAnyPosition (bitFlag true color kind) .here),
        .fails (atAnyPosition (bitFlag false color kind) .here)] := by
  rw [mem_numbered]
  simp [separatedByBits, bitFlag, atPosition, atAnyPosition, inColor]

theorem bitFlag_inj {set set' : Bool} : bitFlag set color kind = bitFlag set' color kind ↔ set = set' := by
  have apart : bitFlag true color kind ≠ bitFlag false color kind := by
    intro same
    have lists := congrArg String.toList same
    simp [bitFlag, bitLabel, spreadLabel, Label.toList_join, Label.Part.text?, Label.plain] at lists
  cases set <;> cases set' <;> simp [apart, apart.symm]

theorem bitSeed_ne_bitFlag {set set' : Bool} : bitSeed set ≠ bitFlag set' color kind :=
  (spreadLabel_ne (by cases set <;> decide)).symm

theorem bitSeed_inj {set set' : Bool} : bitSeed set = bitSeed set' ↔ set = set' := by
  cases set <;> cases set' <;> decide

private theorem bitSeed_unfixed (set : Bool) : bitSeed set ∉ fixedRelations kind := by
  cases set <;> cases kind <;> decide

theorem defines_numbered {relation : String} (defines : (numbered sources count color kind).Defines relation) :
    ∃ set, relation = bitSeed set ∨ relation = bitFlag set color kind := by
  rcases defines with stated | derived
  · obtain ⟨atom, statement, rfl⟩ := stated
    obtain ⟨own, _, bit, _, rfl⟩ := fact_mem_numbered.mp statement
    exact ⟨_, .inl rfl⟩
  · obtain ⟨head, body, statement, rfl⟩ := derived
    obtain ⟨set, rfl, _⟩ := rule_mem_numbered.mp statement
    exact ⟨set, .inr rfl⟩

/-- The color is none of the relations that the sources' bits are stated in. -/
def Unseeded (color : Color) : Prop := ∀ set, color.name ≠ bitSeed set

theorem numbered_spares (unseeded : Unseeded color) :
    Spares (numbered sources count color kind) (some color) kind := by
  refine ⟨fun relation fixed defines => ?_, fun own chosen defines => ?_⟩
  · obtain ⟨set, rfl | rfl⟩ := defines_numbered defines
    · exact bitSeed_unfixed set fixed
    · exact spreadLabel_ne_fixed fixed rfl
  · cases chosen
    obtain ⟨set, same | same⟩ := defines_numbered defines
    · exact unseeded set same
    · exact spreadLabel_ne_name same.symm

section Given

variable (model : (numbered sources count color kind).Model
  (spreadFacts board (some color) kind includeSelf) world) (unseeded : Unseeded color)
include model unseeded

/-- The seeds are just the bits of the sources. -/
private theorem seed_iff {values : List Value} : world ⟨bitSeed set, values⟩ ↔
    ∃ own ∈ sources, ∃ bit < bitWidth count, own.id.toNat.testBit bit = set ∧
      values = [.num own.source.row.val, .num own.source.col.val, .num bit] := by
  have stands (own : Numbered) (bit : Nat) (binding : Binding) :
      StandAll binding ((Place.ofCell own.source).args ++ [.int bit])
        [.num own.source.row.val, .num own.source.col.val, .num bit] :=
    .cons (Term.stands_int _) (.cons (Term.stands_int _) (.cons (Term.stands_int _) .nil))
  rw [model.iff_supported]
  constructor
  · intro reason
    rcases reason with given | ⟨atom, statement, binding, denoted⟩ | ⟨head, body, statement, _, denoted, _⟩
    · rcases spreadFacts_relation given with fixed | ⟨own, chosen, same⟩
      · exact absurd fixed (bitSeed_unfixed set)
      · cases chosen
        exact absurd same.symm (unseeded set)
    · obtain ⟨own, member, bit, small, rfl⟩ := fact_mem_numbered.mp statement
      have same := (Atom.denotes_iff (stands own bit binding)).mp denoted
      rw [Fact.mk.injEq, bitSeed_inj] at same
      exact ⟨own, member, bit, small, same.1.symm, same.2⟩
    · obtain ⟨set', rfl, _⟩ := rule_mem_numbered.mp statement
      exact absurd denoted.1 bitSeed_ne_bitFlag
  · intro stated
    obtain ⟨own, member, bit, small, rfl, rfl⟩ := stated
    refine .inr (.inl ⟨_, fact_mem_numbered.mpr ⟨own, member, bit, small, rfl⟩, fun _ => .inf, ?_⟩)
    exact (Atom.denotes_iff (stands own bit _)).mpr rfl

end Given

private theorem exists_here_other_position (row col row' col' position : Int) : ∃ binding : Binding,
    Place.Here binding row col ∧ Place.Other binding row' col' ∧ binding "B" = .num position := by
  obtain ⟨binding, here, other⟩ := Place.exists_here_other row col row' col'
  exact ⟨fun name => if name = "B" then .num position else binding name, here, other, rfl⟩

private theorem atPosition_args {binding : Binding} {place : Place} {row col : Value}
    (rows : place.row.Stands binding row) (cols : place.col.Stands binding col) :
    StandAll binding (place.args ++ [.var "B" 0]) [row, col, binding "B"] :=
  .cons rows (.cons cols (.cons (Term.stands_var "B") .nil))

private theorem atPosition_stands {binding : Binding} {place : Place} {row col position : Int}
    (stands : place.Stands binding row col) (bound : binding "B" = .num position) :
    StandAll binding (place.args ++ [.var "B" 0]) [.num row, .num col, .num position] :=
  bound ▸ atPosition_args stands.1 stands.2

/-- The flag is up at the cell for the bit at a position. -/
def Flagged (world : World) (color : Color) (kind : Adjacency) (set : Bool) (row col position : Int) : Prop :=
  world (.atBit (bitFlag set color kind) row col position)

private theorem holds_atPosition {binding : Binding} {relation : String} {place : Place} {row col position : Int}
    (stands : place.Stands binding row col) (bound : binding "B" = .num position) :
    (Test.holds (atPosition relation place)).Holds world binding ↔ world (.atBit relation row col position) :=
  Test.holds_iff (atPosition_stands stands bound)

private theorem fails_atAnyPosition {binding : Binding} {relation : String} {place : Place} {row col : Int}
    (stands : place.Stands binding row col) :
    (Test.fails (atAnyPosition relation place)).Holds world binding ↔
      ∀ value, ¬ world ⟨relation, [.num row, .num col, value]⟩ := by
  have denotes (fact : Fact) : (atAnyPosition relation place).Denotes binding fact ↔
      ∃ value, fact = ⟨relation, [.num row, .num col, value]⟩ := by
    have rows := stands.1
    have cols := stands.2
    have any (value : Value) : Term.anon.Denotes binding value := trivial
    unfold Term.Stands at rows cols
    cases fact
    simp [Atom.Denotes, atAnyPosition, Place.args, rows, cols, any]
  simp only [Test.Holds, denotes, forall_exists_index]
  exact forall_comm.trans (by simp)

section Flags

variable (fixed : kind.Fixed) (shows : world.Shows board (some color))
  (neighbors : ∀ fact : Fact, fact.relation = kind.relation →
    (world fact ↔ board.adjacencyFacts kind includeSelf fact))
  (model : (numbered sources count color kind).Model (spreadFacts board (some color) kind includeSelf) world)
  (unseeded : Unseeded color)
  (matched : ∀ own ∈ sources, (board.colored color).isShaded own.source = true)

include shows neighbors model in
private theorem flagged_step {cell next : Cell} {position : Int}
    (flagged : Flagged world color kind set cell.row.val cell.col.val position)
    (shaded : (board.colored color).isShaded next = true) (adjacent : board.adjacent next cell kind = .ok true) :
    Flagged world color kind set next.row.val next.col.val position := by
  obtain ⟨binding, here, other, bound⟩ := exists_here_other_position next.row.val next.col.val cell.row.val
    cell.col.val position
  refine (model.iff_supported _).mpr (.inr (.inr ⟨_, _, rule_mem_numbered.mpr ⟨set, rfl, .inr rfl⟩, binding,
    (Atom.denotes_iff (atPosition_stands here.stands bound)).mpr rfl, ?_⟩))
  refine List.forall_mem_append.mpr ⟨List.forall_mem_cons.mpr ⟨?_, ?_⟩, List.forall_mem_singleton.mpr ?_⟩
  · exact (holds_atPosition other.stands bound).mpr flagged
  · exact (shows.inColor_holds here).mpr (Board.shades_cell.mpr shaded)
  · exact (holds_pair here.stands other.stands).mpr
      ((neighbors _ rfl).mpr (Board.adjacencyFacts_pair.mpr (.inl adjacent)))

include model fixed shows neighbors unseeded matched

/-- A flag starts at the sources whose bit it is, and goes where the board joins cells to them. -/
private theorem flags_are (fact : Fact) (holds : world fact) (raised : fact.relation = bitFlag set color kind) :
    ∃ own ∈ sources, ∃ bit < bitWidth count, own.id.toNat.testBit bit = set ∧
      ∃ cell, (board.colored color).Joined kind own.source cell ∧
        fact = .atBit (bitFlag set color kind) cell.row.val cell.col.val bit := by
  revert raised
  -- by induction on derivations: one rule takes a seed up, the other passes from cell to neighbor
  refine model.induction (fun fact => fact.relation = bitFlag set color kind → ∃ own ∈ sources,
    ∃ bit < bitWidth count, own.id.toNat.testBit bit = set ∧ ∃ cell,
      (board.colored color).Joined kind own.source cell ∧
        fact = .atBit (bitFlag set color kind) cell.row.val cell.col.val bit) ?_ ?_ ?_ fact holds
  · intro fact given raised
    rcases spreadFacts_relation given with isFixed | ⟨own, chosen, same⟩
    · exact absurd raised.symm (spreadLabel_ne_fixed isFixed)
    · cases chosen
      exact absurd (raised.symm.trans same) spreadLabel_ne_name
  · intro atom statement binding fact denoted raised
    obtain ⟨own, _, bit, _, rfl⟩ := fact_mem_numbered.mp statement
    exact absurd (denoted.1.symm.trans raised) bitSeed_ne_bitFlag
  · intro head body statement binding met before fact denoted raised
    obtain ⟨set', rfl, either⟩ := rule_mem_numbered.mp statement
    cases bitFlag_inj.mp (denoted.1.symm.trans raised)
    have raisedAt := (Atom.denotes_iff (atPosition_args (Term.stands_var "R") (Term.stands_var "C"))).mp denoted
    rcases either with rfl | rfl
    · have seeded : (Test.holds (atPosition (bitSeed set) .here)).Holds world binding :=
        met _ (List.mem_singleton_self _)
      rw [atPosition, Test.holds_iff (atPosition_args (Term.stands_var "R") (Term.stands_var "C"))] at seeded
      obtain ⟨own, member, bit, small, isSet, same⟩ := (seed_iff model unseeded).mp seeded
      rw [same] at raisedAt
      exact ⟨own, member, bit, small, isSet, own.source, .refl, raisedAt⟩
    · rw [List.forall_mem_append, List.forall_mem_cons] at met
      obtain ⟨premise, premiseDenoted, _, earlier⟩ := before _ (List.mem_append_left _ List.mem_cons_self)
      obtain ⟨own, member, bit, small, isSet, cell, joined, rfl⟩ := earlier premiseDenoted.1
      have from_ := (Atom.denotes_iff (atPosition_args (Term.stands_var "R1") (Term.stands_var "C1"))).mp
        premiseDenoted
      simp only [Fact.atBit, Fact.mk.injEq, List.cons.injEq, true_and, and_true] at from_
      obtain ⟨row, col, _, here⟩ := shows.onGrid_here.mp (met.1.2 _ List.mem_cons_self)
      obtain ⟨next, shaded, rfl, rfl⟩ := (shows.inColor_holds here).mp met.1.2
      have other : Place.Other binding cell.row.val cell.col.val := ⟨from_.1.symm, from_.2.1.symm⟩
      have joins := (holds_pair here.stands other.stands).mp (met.2 _ (List.mem_singleton_self _))
      rw [here.1, here.2, ← from_.2.2] at raisedAt
      refine ⟨own, member, bit, small, isSet, next, ?_, raisedAt⟩
      rcases Board.adjacencyFacts_pair.mp ((neighbors _ rfl).mp joins) with adjacent | ⟨_, rfl, _⟩
      · have linked := Board.adjacent_symm fixed adjacent
        rw [← Board.adjacent_tinted (some color)] at linked
        exact joined.tail ⟨joined.isShaded (matched own member), shaded, linked⟩
      · exact joined

private theorem flagged_iff {cell : Cell} {position : Int} :
    Flagged world color kind set cell.row.val cell.col.val position ↔ ∃ own ∈ sources,
      ∃ bit < bitWidth count, own.id.toNat.testBit bit = set ∧ position = bit ∧
        (board.colored color).Joined kind own.source cell := by
  constructor
  · intro flagged
    obtain ⟨own, member, bit, small, isSet, cell', joined, same⟩ :=
      flags_are fixed shows neighbors model unseeded matched _ flagged rfl
    obtain ⟨_, rows, cols, positions⟩ := Fact.atBit_inj.mp same
    exact ⟨own, member, bit, small, isSet, positions, Cell.ext rows cols ▸ joined⟩
  · intro reached
    obtain ⟨own, member, bit, small, isSet, rfl, joined⟩ := reached
    induction joined with
    | refl =>
      obtain ⟨binding, here, _, bound⟩ := exists_here_other_position own.source.row.val own.source.col.val 0 0 bit
      refine (model.iff_supported _).mpr (.inr (.inr ⟨_, _, rule_mem_numbered.mpr ⟨set, rfl, .inl rfl⟩, binding,
        (Atom.denotes_iff (atPosition_stands here.stands bound)).mpr rfl, ?_⟩))
      refine List.forall_mem_singleton.mpr ((holds_atPosition here.stands bound).mpr ?_)
      exact (seed_iff model unseeded).mpr ⟨own, member, bit, small, isSet, rfl⟩
    | tail _ linked ih =>
      have back := (Board.adjacent_tinted (some color) _ _ _).symm.trans (Board.adjacent_symm fixed linked.2.2)
      exact flagged_step shows neighbors model ih linked.2.1 back

/-- Within a group of the color, a flag is up for the bits of the sources in it. -/
private theorem flagged_in_group {group : List Cell} (isGroup : (board.colored color).IsGroup kind group) {cell : Cell}
    (inGroup : cell ∈ group) {position : Int} :
    Flagged world color kind set cell.row.val cell.col.val position ↔ ∃ own ∈ sources, own.source ∈ group ∧
      ∃ bit < bitWidth count, own.id.toNat.testBit bit = set ∧ position = bit := by
  have in_iff (own : Numbered) : (board.colored color).Joined kind own.source cell ↔ own.source ∈ group := by
    rw [isGroup.joined cell inGroup own.source]
    exact ⟨fun joined => joined.symm fixed, fun joined => joined.symm fixed⟩
  rw [flagged_iff fixed shows neighbors model unseeded matched]
  simp only [in_iff]
  constructor
  · intro raised
    obtain ⟨own, member, bit, small, isSet, same, inside⟩ := raised
    exact ⟨own, member, inside, bit, small, isSet, same⟩
  · intro raised
    obtain ⟨own, member, inside, bit, small, isSet, same⟩ := raised
    exact ⟨own, member, bit, small, isSet, same, inside⟩

/-- A constraint is broken by a cell with both flags up for a bit, or by a cell of the color with none. -/
private theorem violated_iff_flagged : (numbered sources count color kind).Violated world ↔
    (∃ (cell : Cell) (position : Int), Flagged world color kind true cell.row.val cell.col.val position ∧
      Flagged world color kind false cell.row.val cell.col.val position) ∨
    ∃ cell, (board.colored color).isShaded cell = true ∧
      ∀ set position, ¬ Flagged world color kind set cell.row.val cell.col.val position := by
  have located (set : Bool) (fact : Fact) (holds : world fact) (raised : fact.relation = bitFlag set color kind) :=
    flags_are fixed shows neighbors model unseeded matched fact holds raised
  constructor
  · intro violated
    obtain ⟨body, statement, binding, met⟩ := violated
    rcases constraint_mem_numbered.mp statement with rfl | rfl
    · rw [List.forall_mem_cons, List.forall_mem_singleton] at met
      have up (set : Bool) : (Test.holds (atPosition (bitFlag set color kind) .here)).Holds world binding ↔
          world ⟨bitFlag set color kind, [binding "R", binding "C", binding "B"]⟩ :=
        Test.holds_iff (atPosition_args (Term.stands_var "R") (Term.stands_var "C"))
      have both := (up true).mp met.1
      have none := (up false).mp met.2
      obtain ⟨_, _, bit, _, _, cell, _, same⟩ := located true _ both rfl
      have values := (Fact.mk.inj same).2
      rw [values] at both none
      exact .inl ⟨cell, bit, both, none⟩
    · obtain ⟨isColor, bare⟩ := List.forall_mem_append.mp met
      obtain ⟨row, col, _, here⟩ := shows.onGrid_here.mp (isColor _ List.mem_cons_self)
      obtain ⟨cell, shaded, rfl, rfl⟩ := (shows.inColor_holds here).mp isColor
      rw [List.forall_mem_cons, List.forall_mem_singleton] at bare
      refine .inr ⟨cell, shaded, fun set position => ?_⟩
      cases set with
      | true => exact (fails_atAnyPosition here.stands).mp bare.1 _
      | false => exact (fails_atAnyPosition here.stands).mp bare.2 _
  · intro either
    rcases either with ⟨cell, position, both, none⟩ | ⟨cell, shaded, bare⟩
    · obtain ⟨binding, here, _, bound⟩ := exists_here_other_position cell.row.val cell.col.val 0 0 position
      refine ⟨_, constraint_mem_numbered.mpr (.inl rfl), binding, ?_⟩
      rw [List.forall_mem_cons, List.forall_mem_singleton]
      exact ⟨(holds_atPosition here.stands bound).mpr both, (holds_atPosition here.stands bound).mpr none⟩
    · obtain ⟨binding, here⟩ := Place.exists_here cell.row.val cell.col.val
      have down (set : Bool) : (Test.fails (atAnyPosition (bitFlag set color kind) .here)).Holds world binding := by
        refine (fails_atAnyPosition here.stands).mpr fun value holds => ?_
        obtain ⟨_, _, bit, _, _, cell', _, same⟩ := located set _ holds rfl
        have values := (Fact.mk.inj same).2
        simp only [List.cons.injEq, and_true] at values
        rw [values.2.2] at holds
        exact bare set bit holds
      refine ⟨_, constraint_mem_numbered.mpr (.inr rfl), binding, List.forall_mem_append.mpr ⟨?_, ?_⟩⟩
      · exact (shows.inColor_holds here).mpr (Board.shades_cell.mpr shaded)
      · rw [List.forall_mem_cons, List.forall_mem_singleton]
        exact ⟨down true, down false⟩

end Flags

private theorem exists_bit_ne {id id' : UInt64} {width : Nat} (small : id.toNat < 2 ^ width)
    (small' : id'.toNat < 2 ^ width) (differ : id ≠ id') :
    ∃ bit < width, id.toNat.testBit bit = true ∧ id'.toNat.testBit bit = false ∨
      id.toNat.testBit bit = false ∧ id'.toNat.testBit bit = true := by
  by_contra none
  apply differ
  apply UInt64.toNat_inj.mp
  apply Nat.eq_of_testBit_eq
  intro bit
  by_cases inWidth : bit < width
  · by_contra apart
    apply none
    refine ⟨bit, inWidth, ?_⟩
    cases first : id.toNat.testBit bit <;> cases second : id'.toNat.testBit bit <;> simp_all
  · have high := Nat.pow_le_pow_right (n := 2) (by decide) (Nat.le_of_not_lt inWidth)
    rw [Nat.testBit_lt_two_pow (by omega), Nat.testBit_lt_two_pow (by omega)]

theorem existsUnique_numbered (unseeded : Unseeded color) (given : World) :
    ∃! world, (numbered sources count color kind).Model given world := by
  refine (numbered_spares unseeded).existsUnique_model (fun head body statement literal member => ?_) given
  obtain ⟨set, rfl, rfl | rfl⟩ := rule_mem_numbered.mp statement
  · exact .inl ⟨_, List.mem_singleton.mp member⟩
  · rw [List.mem_append, List.mem_cons, List.mem_singleton] at member
    rcases member with (rfl | inside) | rfl
    · exact .inl ⟨_, rfl⟩
    · exact .inr (.inl inside)
    · exact .inl ⟨_, rfl⟩

/-- For any number of numbered sources in cells of a color, the rules have one model, and it breaks a
constraint exactly if some group of cells of the color has not the sources of just one number. -/
theorem numbered_agree (board : Board) (color : Color) (kind : Adjacency) (includeSelf : Bool)
    (sources : List Numbered) (count : Nat) (fixed : kind.Fixed)
    (named : Named (some color) kind) (unseeded : Unseeded color)
    (matched : ∀ own ∈ sources, (board.colored color).isShaded own.source = true)
    (small : ∀ own ∈ sources, own.id.toNat < 2 ^ bitWidth count) :
    (∃! world, (numbered sources count color kind).Model
      (spreadFacts board (some color) kind includeSelf) world) ∧
      (board.Bounded → ∃ groups, (board.colored color).components kind = .ok groups) ∧
      ∀ groups, (board.colored color).components kind = .ok groups → ∀ world,
        (numbered sources count color kind).Model (spreadFacts board (some color) kind includeSelf) world →
          ((numbered sources count color kind).Violated world ↔
            ∃ group ∈ groups, ¬ ∃! id, ∃ own ∈ sources, own.source ∈ group ∧ own.id = id) := by
  refine ⟨existsUnique_numbered unseeded _, fun bounded => (Board.bounded_colored bounded color).exists_components fixed,
    fun groups grouped world model => ?_⟩
  obtain ⟨classes, covered⟩ := Board.IsGroup.of_components fixed grouped
  have shows := (numbered_spares unseeded).shows named model
  have neighbors := (numbered_spares unseeded).neighbors named model
  have flagged {group : List Cell} (isGroup : group ∈ groups) {cell : Cell} (inGroup : cell ∈ group) (set : Bool)
      (position : Int) : Flagged world color kind set cell.row.val cell.col.val position ↔ _ :=
    flagged_in_group fixed shows neighbors model unseeded matched (classes group isGroup) inGroup
  rw [violated_iff_flagged fixed shows neighbors model unseeded matched]
  constructor
  · intro either
    rcases either with ⟨cell, position, both, none⟩ | ⟨cell, shaded, bare⟩
    · obtain ⟨own, member, _, _, _, _, joined⟩ :=
        (flagged_iff fixed shows neighbors model unseeded matched).mp both
      obtain ⟨group, isGroup, inGroup⟩ := covered cell (joined.isShaded (matched own member))
      obtain ⟨first, member, inGroup', bit, _, isSet, rfl⟩ := (flagged isGroup inGroup true position).mp both
      obtain ⟨second, member', inGroup'', bit', _, isUnset, same⟩ := (flagged isGroup inGroup false bit).mp none
      refine ⟨group, isGroup, fun unique => ?_⟩
      have sameId := unique.unique ⟨first, member, inGroup', rfl⟩ ⟨second, member', inGroup'', rfl⟩
      rw [sameId, Int.ofNat_inj.mp same, isUnset] at isSet
      cases isSet
    · obtain ⟨group, isGroup, inGroup⟩ := covered cell shaded
      refine ⟨group, isGroup, fun unique => ?_⟩
      obtain ⟨_, own, member, inGroup', _⟩ := unique.exists
      exact bare _ 0 ((flagged isGroup inGroup _ 0).mpr ⟨own, member, inGroup', 0, bitWidth_pos count, rfl, rfl⟩)
  · intro broken
    obtain ⟨group, isGroup, apart⟩ := broken
    obtain ⟨cell, inGroup⟩ := List.exists_mem_of_ne_nil group (classes group isGroup).inhabited
    by_contra kept
    rw [not_or] at kept
    obtain ⟨clashless, reached⟩ := kept
    have some : ∃ own ∈ sources, own.source ∈ group := by
      by_contra none
      refine reached ⟨cell, (classes group isGroup).shaded cell inGroup, fun set position up => ?_⟩
      obtain ⟨own, member, inGroup', _⟩ := (flagged isGroup inGroup set position).mp up
      exact none ⟨own, member, inGroup'⟩
    obtain ⟨own, member, inGroup'⟩ := some
    refine apart ⟨own.id, ⟨own, member, inGroup', rfl⟩, fun id holds => ?_⟩
    obtain ⟨other, member', inGroup'', rfl⟩ := holds
    by_contra differ
    obtain ⟨bit, inWidth, parts⟩ := exists_bit_ne (small other member') (small own member) differ
    have up {own : Numbered} (member : own ∈ sources) (inside : own.source ∈ group) (set : Bool)
        (isSet : own.id.toNat.testBit bit = set) : Flagged world color kind set cell.row.val cell.col.val bit :=
      (flagged isGroup inGroup set bit).mpr ⟨own, member, inside, bit, inWidth, isSet, rfl⟩
    apply clashless
    rcases parts with ⟨isSet, isUnset⟩ | ⟨isUnset, isSet⟩
    · exact ⟨cell, bit, up member' inGroup'' true isSet, up member inGroup' false isUnset⟩
    · exact ⟨cell, bit, up member inGroup' true isSet, up member' inGroup'' false isUnset⟩

def pairBoard : Board := .ofShading 1 5 (by decide) fun _ col => col ≠ 2

/-- The numbers one and three agree in their lowest bit. -/
def pairNumbers : List Numbered := [⟨.of 0 0, 1⟩, ⟨.of 0 1, 3⟩, ⟨.of 0 3, 2⟩]

theorem numbered_agree_pair : ∃ world,
    (numbered pairNumbers 4 (.positive "black") .side).Model
      (spreadFacts pairBoard (some (.positive "black")) .side false) world ∧
    (numbered pairNumbers 4 (.positive "black") .side).Violated world := by
  have named : Named (some (.positive "black")) .side := by
    intro own chosen
    cases chosen
    decide
  have unseeded : Unseeded (.positive "black") := by
    intro set
    cases set <;> decide
  obtain ⟨⟨world, model, _⟩, _, agree⟩ := numbered_agree pairBoard (.positive "black") .side false
    pairNumbers 4 ⟨nofun, nofun⟩ named unseeded (by decide) (by decide)
  have found : pairBoard.components .side = .ok [[.of 0 0, .of 0 1], [.of 0 3, .of 0 4]] := by decide +kernel
  refine ⟨world, model, (agree _ found world model).mpr ⟨[.of 0 0, .of 0 1], List.mem_cons_self, fun unique => ?_⟩⟩
  have one : ∃ own ∈ pairNumbers, own.source ∈ [Cell.of 0 0, .of 0 1] ∧ own.id = 1 := by decide
  have three : ∃ own ∈ pairNumbers, own.source ∈ [Cell.of 0 0, .of 0 1] ∧ own.id = 3 := by decide
  exact absurd (unique.unique one three) (by decide)

end Template

end GridPuzzle
