import GridPuzzle.Template.Connection

/-!
Many sources told apart by the bits of their numbers. Each bit spreads by its presence and by its
absence, so that the number of labels grows with the bits and not with the sources.
-/
namespace GridPuzzle.Template

/-- How many bits give each of `sources` sources a number of its own. -/
def bitWidth (sources : Nat) : Nat :=
  if sources ≤ 1 then 1 else (sources - 1).log2 + 1

def presentBit : String := "clue_bit"

def absentBit : String := "clue_no_bit"

/-- The bits of a source's number at the positions from `first` up to but not including `last`. -/
def sourceBits (source : Cell) (id : UInt64) (first last : Nat) : Program :=
  ⟨(List.range' first (last - first)).map fun bit =>
    let relation := if id.toNat.testBit bit then presentBit else absentBit
    .fact ⟨relation, (Place.ofCell source).args ++ [.int bit]⟩⟩

def bitLabel (word : String) (color : Color) (kind : Adjacency) : String :=
  spreadLabel ["grid", word] kind (some color)

/-- Every cell of a color is reached by some bit, and by no bit both as present and as absent. -/
def separatedByBits (color : Color) (kind : Adjacency) : Program :=
  let present := bitLabel "bit" color kind
  let absent := bitLabel "no_bit" color kind
  let bit (relation : String) (place : Place) (position : Term) : Atom :=
    ⟨relation, place.args ++ [position]⟩
  let position : Term := .var "B" 0
  let spreadBit (label seed : String) : List Statement :=
    [.rule (bit label .here position) [.holds (bit seed .here position)],
      .rule (bit label .here position)
        [.holds (bit label .other position), onGrid .here, color.on .here,
          .holds (kind.joins .here .other)]]
  ⟨spreadBit present presentBit ++ spreadBit absent absentBit ++
    [.constraint [.holds (bit present .here position), .holds (bit absent .here position)],
      .constraint [onGrid .here, color.on .here, .fails (bit present .here .anon),
        .fails (bit absent .here .anon)]]⟩

end GridPuzzle.Template
