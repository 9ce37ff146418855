import Ladybone.Regex.Machine
import Ladybone.Support.SortedSearch

/-!
# Classes as sorted ranges

The compiler sorts the ranges of a class by their starts and leaves overlaps as they are. The
machine tries up to eight ranges one by one. Of more it looks at a single one, the last that starts
at or before the code point, and an earlier range may reach further than that one.
-/

namespace Ladybone.Regex.Ranges

open Regex.Syntax Regex.Compile Regex.Machine Support.SortedSearch List

def startsBy (codePoint : Nat) (range : CharRange) : Bool := range.start ≤ codePoint

def lastStarting (codePoint : Nat) (ranges : List CharRange) : Option CharRange :=
  (ranges.takeWhile (startsBy codePoint)).getLast?

variable {codePoint : Nat} {ranges : List CharRange}

theorem binary_search_base_eq {boundary fuel size base : Nat}
    (partitioned : PartitionedAt (startsBy codePoint) ranges boundary)
    (inside : base + size ≤ ranges.length) (some : 0 < size) (enough : size ≤ fuel)
    (low : base < boundary ∨ base = 0) (high : boundary ≤ base + size) :
    binarySearchBase codePoint ranges fuel size base = boundary - 1 := by
  induction fuel generalizing size base with
  | zero => omega
  | succ fuel ih =>
    rw [binarySearchBase]
    split
    · omega
    · have read := getElem?_eq_getElem (by omega : base + size / 2 < ranges.length)
      have split := partitioned.2 _ _ read
      rw [startsBy, decide_eq_true_eq] at split
      simp only [getD_eq_getElem?_getD, read, Option.getD_some]
      split_ifs <;> exact ih (by omega) (by omega) (by omega) (by omega) (by omega)

theorem char_in_many_ranges (many : 8 < ranges.length)
    (sorted : ranges.Pairwise fun left right => left.start ≤ right.start) :
    charInRanges codePoint ranges =
      (lastStarting codePoint ranges).any (CharRange.contains · codePoint) := by
  have partitioned := partitioned_at_take_while ranges (startsBy codePoint)
    (sorted.imp fun order => by simpa [startsBy] using order.trans)
  rw [charInRanges, if_neg (by omega), lastStarting, getLast?_eq_getElem?, getD_eq_getElem?_getD,
    binary_search_base_eq partitioned (by omega) (by omega) le_rfl (.inr rfl)
      (by simpa using partitioned.1)]
  cases starting : (ranges.takeWhile (startsBy codePoint)).length with
  | zero =>
    have read := getElem?_eq_getElem (by omega : 0 < ranges.length)
    have behind := partitioned.2 0 _ read
    rw [startsBy] at behind
    simp [length_eq_zero_iff.mp starting, CharRange.contains, read, behind]
  | succ count =>
    have inside : count < (ranges.takeWhile (startsBy codePoint)).length := by omega
    have front : ranges.takeWhile (startsBy codePoint) <+: ranges := takeWhile_prefix _
    rw [Nat.add_sub_cancel, getElem?_eq_getElem inside, front.getElem inside, getElem?_eq_getElem]
    rfl

/-- More than eight ranges are searched rightly for a code point that one of them contains just
when the last one that starts at or before the code point contains it. -/
theorem char_in_ranges_exact_iff (listed : List CharRange) (codePoint : Nat) :
    (charInRanges codePoint (sortRanges listed) = true ↔
        ∃ range ∈ listed, CharRange.contains range codePoint = true) ↔
      listed.length ≤ 8 ∨ ((∃ range ∈ listed, CharRange.contains range codePoint = true) →
        ∃ last ∈ lastStarting codePoint (sortRanges listed),
          CharRange.contains last codePoint = true) := by
  have sorted : (sortRanges listed).Pairwise fun left right => left.start ≤ right.start :=
    pairwise_insertionSort _ _
  have same : ∀ range, range ∈ sortRanges listed ↔ range ∈ listed := fun range =>
    (perm_insertionSort _ listed).mem_iff
  have length : (sortRanges listed).length = listed.length := length_insertionSort _ _
  by_cases few : listed.length ≤ 8
  · simp [charInRanges, length, few, same]
  · have isListed : (∃ last ∈ lastStarting codePoint (sortRanges listed),
        CharRange.contains last codePoint = true) →
        ∃ range ∈ listed, CharRange.contains range codePoint = true := by
      rintro ⟨last, isLast, holds⟩
      have member := (takeWhile_sublist _).subset (mem_of_getLast? isLast)
      exact ⟨last, (same last).mp member, holds⟩
    rw [char_in_many_ranges (by omega) sorted, Option.any_eq_true, or_iff_right few]
    exact ⟨fun exactly => exactly.mpr, fun reaches => ⟨isListed, reaches⟩⟩

/-- The class `[a-zbcdefghi]`. -/
def overlappingClass : List CharacterClassRange :=
  .range 0x61 0x7A :: (List.range 8).map fun letter => .single (0x62 + letter)

def legacyCompiler : Compiler := ⟨false, false, false, false, false, false⟩

/-- It does not match `z`, and without its last member it does. -/
theorem overlapping_class_misses_member :
    ∃ ranges, compileRangesClass asciiPlatform legacyCompiler overlappingClass false 0 0 =
        ([.charClass ranges false], 0) ∧
      trySimpleMatchForRanges asciiPlatform legacyCompiler overlappingClass false =
        some (.charClass ranges false) ∧
      ⟨0x61, 0x7A⟩ ∈ ranges ∧ charInRanges 0x7A ranges = false ∧
      charInRanges 0x7A (ranges.take 8) = true := by
  refine ⟨_, rfl, rfl, ?_⟩
  decide +kernel

end Ladybone.Regex.Ranges
