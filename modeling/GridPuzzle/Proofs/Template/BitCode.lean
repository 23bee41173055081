import Mathlib.Algebra.BigOperators.Group.List.Basic
import Mathlib.Algebra.Ring.Nat
import GridPuzzle.Proofs.Template.SourceBits

/-!
Numbers of sources and the facts about their bits. The facts spell the number out, so a source's number can be read
off them again, and there are as many of them as it takes to tell a count of sources apart.
-/
namespace GridPuzzle.Template

variable {source : Cell} {id id' : UInt64} {sources width : Nat}

/-- What a statement says of the source's number: whether a bit is set, and the position of the bit. -/
def bitOf? (source : Cell) : Statement → Option (Bool × Nat)
  | .fact ⟨relation, [row, col, .int (.ofNat position)]⟩ =>
    if [row, col] = (Place.ofCell source).args then
      if relation = presentBit then some (true, position)
      else if relation = absentBit then some (false, position)
      else none
    else none
  | _ => none

/-- The sum of the powers of two at the positions of the bits that are said to be set. -/
def numberOf (source : Cell) (program : Program) : Nat :=
  (((program.statements.filterMap (bitOf? source)).filter Prod.fst).map fun bit => 2 ^ bit.2).sum

theorem bitOf?_bitSeed (source : Cell) (set : Bool) (position : Nat) :
    bitOf? source (.fact ⟨bitSeed set, (Place.ofCell source).args ++ [.int position]⟩) = some (set, position) := by
  cases set with
  | true => exact (if_pos rfl).trans (if_pos rfl)
  | false => exact (if_pos rfl).trans ((if_neg (by decide)).trans (if_pos rfl))

/-- There is one fact for each position, in increasing order. -/
theorem bits_sourceBits (source : Cell) (id : UInt64) (first last : Nat) :
    (sourceBits source id first last).statements.map (bitOf? source) =
      (List.range' first (last - first)).map fun position => some (id.toNat.testBit position, position) := by
  rw [sourceBits, List.map_map]
  exact List.map_congr_left fun position _ => bitOf?_bitSeed source _ position

theorem sum_testBit (number width : Nat) :
    (((List.range width).filter number.testBit).map (2 ^ ·)).sum = number % 2 ^ width := by
  induction width with
  | zero => exact (Nat.mod_one number).symm
  | succ width ih =>
    rw [List.range_succ, List.filter_append, List.map_append, List.sum_append, ih, Nat.mod_pow_succ,
      ← Nat.toNat_testBit]
    cases set : number.testBit width <;> simp [set]

/-- The facts spell out as much of the number as their positions hold. -/
theorem numberOf_sourceBits (source : Cell) (id : UInt64) (width : Nat) :
    numberOf source (sourceBits source id 0 width) = id.toNat % 2 ^ width := by
  have listed : (sourceBits source id 0 width).statements.filterMap (bitOf? source) =
      (List.range width).map fun position => (id.toNat.testBit position, position) := by
    have bits := congrArg (List.filterMap fun bit => bit) (bits_sourceBits source id 0 width)
    rw [Nat.sub_zero, ← List.range_eq_range'] at bits
    simpa [List.filterMap_map, Function.comp_def] using bits
  rw [numberOf, listed, List.filter_map, List.map_map]
  exact sum_testBit id.toNat width

theorem sourceBits_eq_iff : sourceBits source id 0 width = sourceBits source id' 0 width ↔
    id.toNat % 2 ^ width = id'.toNat % 2 ^ width := by
  constructor
  · intro same
    rw [← numberOf_sourceBits source, ← numberOf_sourceBits source, same]
  · intro same
    have bits (position : Nat) (below : position < width) :
        id.toNat.testBit position = id'.toNat.testBit position := by
      have agree := congrArg (·.testBit position) same
      simpa [Nat.testBit_mod_two_pow, below] using agree
    refine congrArg Program.mk (List.map_congr_left fun position listed => ?_)
    rw [bits position (by simpa using listed)]

theorem le_two_pow_bitWidth (sources : Nat) : sources ≤ 2 ^ bitWidth sources := by
  unfold bitWidth
  split
  · omega
  · have above := Nat.lt_log2_self (n := sources - 1)
    omega

theorem two_pow_lt_of_bitWidth (many : 1 < bitWidth sources) : 2 ^ (bitWidth sources - 1) < sources := by
  unfold bitWidth at *
  split at many
  · omega
  · rename_i more
    have below := Nat.log2_self_le (n := sources - 1) (by omega)
    rw [if_neg more, Nat.add_sub_cancel]
    omega

theorem bitWidth_le (word : sources < 2 ^ 64) : bitWidth sources ≤ 64 := by
  by_cases many : 1 < bitWidth sources
  · have below := Nat.lt_trans (two_pow_lt_of_bitWidth many) word
    have exponents := (Nat.pow_lt_pow_iff_right (by decide)).mp below
    omega
  · omega

/-- Where the width is more than one, fewer bits give two of the sources the same facts. -/
theorem exists_alike (word : sources < 2 ^ 64) (many : 1 < bitWidth sources) (narrow : width < bitWidth sources) :
    ∃ id id' : UInt64, id ≠ id' ∧ id.toNat < sources ∧ id'.toNat < sources ∧
      sourceBits source id 0 width = sourceBits source id' 0 width := by
  have power : 2 ^ width < sources := by
    have exponents := Nat.pow_le_pow_right (n := 2) (by decide) (show width ≤ bitWidth sources - 1 by omega)
    exact Nat.lt_of_le_of_lt exponents (two_pow_lt_of_bitWidth many)
  have number : (UInt64.ofNat (2 ^ width)).toNat = 2 ^ width :=
    UInt64.toNat_ofNat_of_lt' (Nat.lt_trans power word)
  have positive := Nat.two_pow_pos width
  refine ⟨0, .ofNat (2 ^ width), ?_, ?_, ?_, sourceBits_eq_iff.mpr ?_⟩
  · intro same
    rw [← same] at number
    exact absurd number.symm (Nat.ne_of_gt positive)
  · exact Nat.lt_trans positive power
  · rwa [number]
  · rw [number, Nat.mod_self]
    exact Nat.zero_mod _

/-- With as many bits as a count of sources needs, the facts about a number below the count have one position after
the other, and their powers of two sum up to the number, so different numbers have different facts. Fewer bits would
not do. At any positions a fact says whether the bit is set there, which it is not beyond the word. -/
theorem sourceBits_identify (source : Cell) :
    (∀ sources < 2 ^ 64,
      (1 ≤ bitWidth sources ∧ bitWidth sources ≤ 64 ∧ sources ≤ 2 ^ bitWidth sources ∧
        (1 < bitWidth sources → 2 ^ (bitWidth sources - 1) < sources ∧
          ∀ width < bitWidth sources, ∃ id id' : UInt64, id ≠ id' ∧ id.toNat < sources ∧ id'.toNat < sources ∧
            sourceBits source id 0 width = sourceBits source id' 0 width)) ∧
      ∀ id : UInt64, id.toNat < max sources 1 →
        ((sourceBits source id 0 (bitWidth sources)).statements.map (bitOf? source) =
          (List.range (bitWidth sources)).map fun position => some (id.toNat.testBit position, position)) ∧
        numberOf source (sourceBits source id 0 (bitWidth sources)) = id.toNat ∧
        ∀ id' : UInt64, id'.toNat < max sources 1 → id ≠ id' →
          sourceBits source id 0 (bitWidth sources) ≠ sourceBits source id' 0 (bitWidth sources)) ∧
    ∀ (id : UInt64) (first last : Nat),
      ((sourceBits source id first last).statements.map (bitOf? source) =
        (List.range' first (last - first)).map fun position =>
          some (decide (id.toNat / 2 ^ position % 2 = 1), position)) ∧
      ∀ position, 64 ≤ position → first ≤ position → position < last →
        .fact ⟨absentBit, (Place.ofCell source).args ++ [.int position]⟩ ∈
          (sourceBits source id first last).statements := by
  refine ⟨fun sources word => ⟨⟨bitWidth_pos sources, bitWidth_le word, le_two_pow_bitWidth sources, fun many =>
    ⟨two_pow_lt_of_bitWidth many, fun width narrow => exists_alike word many narrow⟩⟩, fun id below => ?_⟩,
    fun id first last => ⟨?_, fun position beyond start stop => ?_⟩⟩
  · have fits {id : UInt64} (below : id.toNat < max sources 1) : id.toNat % 2 ^ bitWidth sources = id.toNat := by
      have bound := le_two_pow_bitWidth sources
      have positive := Nat.two_pow_pos (bitWidth sources)
      exact Nat.mod_eq_of_lt (by omega)
    refine ⟨?_, (numberOf_sourceBits source id _).trans (fits below), fun id' below' differ same => differ ?_⟩
    · rw [bits_sourceBits, Nat.sub_zero, List.range_eq_range']
    · have numbers := sourceBits_eq_iff.mp same
      rw [fits below, fits below'] at numbers
      exact UInt64.toNat_inj.mp numbers
  · rw [bits_sourceBits]
    exact List.map_congr_left fun position _ => by rw [Nat.testBit_eq_decide_div_mod_eq]
  · have unset : id.toNat.testBit position = false := by
      refine Nat.testBit_lt_two_pow (Nat.lt_of_lt_of_le id.toNat_lt ?_)
      exact Nat.pow_le_pow_right (by decide) beyond
    refine List.mem_map.mpr ⟨position, List.mem_range'_1.mpr ⟨start, by omega⟩, ?_⟩
    rw [unset]
    rfl

theorem sourceBits_identify_extremes :
    numberOf (.of 1 4) (sourceBits (.of 1 4) (.ofNat (2 ^ 64 - 2)) 0 (bitWidth (2 ^ 64 - 1))) = 2 ^ 64 - 2 ∧
    (∃ id id' : UInt64, id ≠ id' ∧ id.toNat < 5 ∧ id'.toNat < 5 ∧
      sourceBits (.of 1 4) id 0 2 = sourceBits (.of 1 4) id' 0 2) ∧
    (sourceBits (.of 1 4) (.ofNat (2 ^ 64 - 1)) 63 65).statements.map (bitOf? (.of 1 4)) =
      [some (true, 63), some (false, 64)] := by
  obtain ⟨numbered, bits⟩ := sourceBits_identify (.of 1 4)
  have number : (UInt64.ofNat (2 ^ 64 - 2)).toNat = 2 ^ 64 - 2 := by decide
  obtain ⟨_, widest⟩ := numbered (2 ^ 64 - 1) (by decide)
  obtain ⟨⟨_, _, _, narrower⟩, _⟩ := numbered 5 (by decide)
  refine ⟨(widest _ (by decide)).2.1.trans number, (narrower (by decide)).2 2 (by decide), ?_⟩
  rw [(bits _ 63 65).1]
  decide

end GridPuzzle.Template
