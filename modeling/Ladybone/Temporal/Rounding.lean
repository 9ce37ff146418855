import Mathlib.Algebra.Order.Group.Abs
import Mathlib.Algebra.Order.Ring.Int

/-!
# Rounding to an increment

Transcription of `round_number_to_increment` and `round_number_to_increment_as_if_positive`
on big integers, whose division truncates. Both are compared with rounding on the number
line: the two multiples around a number, and which of them a mode takes.
-/

namespace Ladybone.Temporal

inductive RoundingMode where
  | ceil
  | floor
  | expand
  | trunc
  | halfCeil
  | halfFloor
  | halfExpand
  | halfTrunc
  | halfEven
deriving DecidableEq

inductive UnsignedRoundingMode where
  | infinity
  | zero
  | halfInfinity
  | halfZero
  | halfEven
deriving DecidableEq

inductive Sign where
  | positive
  | negative
deriving DecidableEq

def getUnsignedRoundingMode (roundingMode : RoundingMode) (sign : Sign) : UnsignedRoundingMode :=
  match roundingMode with
  | .ceil => if sign = .positive then .infinity else .zero
  | .floor => if sign = .positive then .zero else .infinity
  | .expand => .infinity
  | .trunc => .zero
  | .halfCeil => if sign = .positive then .halfInfinity else .halfZero
  | .halfFloor => if sign = .positive then .halfZero else .halfInfinity
  | .halfExpand => .halfInfinity
  | .halfTrunc => .halfZero
  | .halfEven => .halfEven

structure SignedDivisionResult where
  (quotient remainder : Int)

def dividedBy (x divisor : Int) : SignedDivisionResult := ⟨x.tdiv divisor, x.tmod divisor⟩

def modulo (x y : Int) : Int :=
  if (dividedBy x y).remainder < 0 then (dividedBy x y).remainder + y else (dividedBy x y).remainder

/-- The big-integer overload; `x` is the number divided by the increment. -/
def applyUnsignedRoundingMode (x : SignedDivisionResult) (r1 r2 : Int)
    (mode : UnsignedRoundingMode) (increment : Nat) : Int :=
  if x.quotient = r1 ∧ x.remainder = 0 then r1
  else if mode = .zero then r1
  else if mode = .infinity then r2
  else
    let d1 := x.remainder
    let d2 := -(if x.remainder < 0 then x.remainder + increment else x.remainder - increment)
    if d1 < d2 then r1
    else if d2 < d1 then r2
    else if mode = .halfZero then r1
    else if mode = .halfInfinity then r2
    else if modulo (dividedBy r1 (r2 - r1)).quotient 2 = 0 then r1
    else r2

def roundNumberToIncrement (x : Int) (increment : Nat) (roundingMode : RoundingMode) : Int :=
  if increment = 1 then x
  else
    let divisionResult := dividedBy x increment
    if divisionResult.remainder = 0 then x
    else
      let isNegative : Sign :=
        if divisionResult.quotient < 0 ∨ divisionResult.remainder < 0 then .negative else .positive
      let quotient : SignedDivisionResult :=
        if isNegative = .negative then ⟨-divisionResult.quotient, -divisionResult.remainder⟩
        else divisionResult
      let rounded := applyUnsignedRoundingMode quotient quotient.quotient (quotient.quotient + 1)
        (getUnsignedRoundingMode roundingMode isNegative) increment
      (if isNegative = .negative then -rounded else rounded) * increment

def roundNumberToIncrementAsIfPositive (x : Int) (increment : Nat) (roundingMode : RoundingMode) :
    Int :=
  if increment = 1 then x
  else
    let divisionResult := dividedBy x increment
    if divisionResult.remainder = 0 then x
    else
      let r1 := if x < 0 then divisionResult.quotient - 1 else divisionResult.quotient
      let r2 := if x < 0 then divisionResult.quotient else divisionResult.quotient + 1
      applyUnsignedRoundingMode divisionResult r1 r2
        (getUnsignedRoundingMode roundingMode .positive) increment * increment

/-! ## On the number line -/

/-- Whether a number above the multiple `lower * increment` by `distance` goes up to the next. -/
def RoundingMode.up (mode : RoundingMode) (lower distance increment : Int) : Bool :=
  match mode with
  | .ceil => true
  | .floor => false
  | .expand => 0 ≤ lower
  | .trunc => lower < 0
  | .halfCeil => increment ≤ 2 * distance
  | .halfFloor => increment < 2 * distance
  | .halfExpand => increment < 2 * distance ∨ increment = 2 * distance ∧ 0 ≤ lower
  | .halfTrunc => increment < 2 * distance ∨ increment = 2 * distance ∧ lower < 0
  | .halfEven => increment < 2 * distance ∨ increment = 2 * distance ∧ lower % 2 = 1

/-- The multiple that a mode prescribes. -/
def prescribed (mode : RoundingMode) (x : Int) (increment : Nat) : Int :=
  if x % increment = 0 then x
  else if mode.up (x / increment) (x % increment) increment then (x / increment + 1) * increment
  else x / increment * increment

/-- The mode that does on the whole line what `mode` does to positive numbers. -/
def RoundingMode.asIfPositive (mode : RoundingMode) : RoundingMode :=
  match mode with
  | .expand => .ceil
  | .trunc => .floor
  | .halfExpand => .halfCeil
  | .halfTrunc => .halfFloor
  | mode => mode

def UnsignedRoundingMode.up (mode : UnsignedRoundingMode) (r1 distance increment : Int) : Bool :=
  match mode with
  | .infinity => true
  | .zero => false
  | .halfInfinity => increment ≤ 2 * distance
  | .halfZero => increment < 2 * distance
  | .halfEven => increment < 2 * distance ∨ increment = 2 * distance ∧ r1 % 2 = 1

variable {x lower : Int} {n : Nat} {mode : RoundingMode}

theorem modulo_two : modulo x 2 = x % 2 := by
  simp only [modulo, dividedBy]
  grind

/-- A negative remainder is compared as it stands: it and its complement both fall short of the
distances by the increment, so their order is that of the distances. -/
theorem apply_unsigned_rounding_mode_eq {quotient : Int} {remainder r1 r2 distance : Int}
    {mode : UnsignedRoundingMode} (apart : remainder ≠ 0) (next : r2 = r1 + 1)
    (placed : distance = if remainder < 0 then remainder + n else remainder) :
    applyUnsignedRoundingMode ⟨quotient, remainder⟩ r1 r2 mode n =
      if mode.up r1 distance n then r1 + 1 else r1 := by
  subst next
  have cardinality : (dividedBy r1 (r1 + 1 - r1)).quotient = r1 := by
    simp [dividedBy]
  unfold applyUnsignedRoundingMode
  rw [modulo_two]
  cases mode <;> simp [UnsignedRoundingMode.up] <;> grind

/-- A number between two multiples, and its truncating division by the increment. -/
structure Between (x : Int) (n : Nat) : Prop where
  low : 0 < x % n
  high : x % n < n
  sign : x < 0 ↔ x / n < 0
  divided : dividedBy x n = if x < 0 then ⟨x / n + 1, x % n - n⟩ else ⟨x / n, x % n⟩

theorem between (positive : 0 < n) (apart : x % n ≠ 0) : Between x n where
  low := by
    have := Int.emod_nonneg x (b := n) (by omega)
    omega
  high := Int.emod_lt_of_pos x (by omega)
  sign := by
    constructor
    · exact fun negative => Int.ediv_neg_of_neg_of_pos negative (by omega)
    · by_contra nonneg
      have := Int.ediv_nonneg (a := x) (b := n) (by omega) (by omega)
      omega
  divided := by
    have signum : (n : Int).sign = 1 := Int.sign_eq_one_of_pos (by omega)
    have indivisible : ¬(n : Int) ∣ x := fun divides => apart (Int.emod_eq_zero_of_dvd divides)
    simp only [dividedBy, Int.tdiv_eq_ediv]
    grind

theorem prescribed_of_between {rounded : Int} (positive : 0 < n) (rounds : Between x n →
      rounded = (if mode.up (x / n) (x % n) n then x / n + 1 else x / n) * n) :
    (if n = 1 then x else if (dividedBy x n).remainder = 0 then x else rounded) =
      prescribed mode x n := by
  unfold prescribed
  rcases eq_or_ne (x % n) 0 with multiple | apart
  · have exact : (dividedBy x n).remainder = 0 :=
      Int.tmod_eq_zero_of_dvd (Int.dvd_of_emod_eq_zero multiple)
    rw [if_pos multiple, if_pos exact, ite_self]
  · have inside := between positive apart
    have several : n ≠ 1 := by
      have := inside.low
      have := inside.high
      omega
    have remains : (dividedBy x n).remainder ≠ 0 := fun exact =>
      apart (Int.emod_eq_zero_of_dvd (Int.dvd_of_tmod_eq_zero exact))
    rw [if_neg several, if_neg remains, if_neg apart, rounds inside, ite_mul]

theorem up_positive {lower distance : Int} :
    (getUnsignedRoundingMode mode .positive).up lower distance n =
      mode.asIfPositive.up lower distance n := by
  cases mode <;> rfl

theorem as_if_positive_up {distance : Int} (nonneg : ¬lower < 0) :
    mode.asIfPositive.up lower distance n = mode.up lower distance n := by
  cases mode <;> simp [RoundingMode.asIfPositive, RoundingMode.up] <;> grind

theorem up_negative {distance : Int} (negative : lower < 0) :
    (getUnsignedRoundingMode mode .negative).up (-(lower + 1)) (n - distance) n =
      !mode.up lower distance n := by
  cases mode <;> simp [getUnsignedRoundingMode, UnsignedRoundingMode.up, RoundingMode.up] <;> grind

theorem round_number_to_increment_eq (positive : 0 < n) :
    roundNumberToIncrement x n mode = prescribed mode x n := by
  refine prescribed_of_between positive fun inside => ?_
  obtain ⟨low, high, sign, divided⟩ := inside
  rw [divided]
  by_cases negative : x < 0
  · have remainder : x % n - n < 0 := by omega
    simp only [if_pos negative, remainder, or_true, if_true]
    rw [apply_unsigned_rounding_mode_eq (by omega) rfl (by rw [if_neg (by omega)]),
      neg_sub, up_negative (sign.1 negative)]
    cases mode.up (x / n) (x % n) n <;> simp
  · have forward : ¬(x / n < 0 ∨ x % n < 0) := by omega
    simp only [if_neg negative, if_neg forward, reduceCtorEq, if_false]
    rw [apply_unsigned_rounding_mode_eq low.ne' rfl (by rw [if_neg (by omega)]),
      up_positive, as_if_positive_up (by omega)]

theorem round_number_to_increment_as_if_positive_eq (positive : 0 < n) :
    roundNumberToIncrementAsIfPositive x n mode = prescribed mode.asIfPositive x n := by
  refine prescribed_of_between positive fun inside => ?_
  obtain ⟨low, high, -, divided⟩ := inside
  rw [divided]
  by_cases negative : x < 0
  · simp only [if_pos negative]
    rw [apply_unsigned_rounding_mode_eq (by omega) (by omega)
      (by rw [if_pos (by omega)]), sub_add_cancel, add_sub_cancel_right, up_positive]
  · simp only [if_neg negative]
    rw [apply_unsigned_rounding_mode_eq low.ne' rfl (by rw [if_neg (by omega)]), up_positive]

/-! ## What a prescribed multiple is -/

theorem prescribed_eq : prescribed mode x n = x / n * n +
    if x % n ≠ 0 ∧ mode.up (x / n) (x % n) n then n else 0 := by
  have whole := Int.ediv_mul_add_emod x n
  unfold prescribed
  split_ifs <;> grind

theorem dvd_prescribed : (n : Int) ∣ prescribed mode x n := by
  unfold prescribed
  split_ifs with multiple
  · exact Int.dvd_of_emod_eq_zero multiple
  · exact Dvd.intro_left _ rfl
  · exact Dvd.intro_left _ rfl

theorem abs_prescribed_sub_lt (positive : 0 < n) : |prescribed mode x n - x| < n := by
  have whole := Int.ediv_mul_add_emod x n
  have low := Int.emod_nonneg x (b := n) (by omega)
  have high := Int.emod_lt_of_pos x (b := n) (by omega)
  rw [prescribed_eq, abs_lt]
  split_ifs <;> omega

theorem up_mono {distance farther : Int} (nearer : distance ≤ farther)
    (up : mode.up lower distance n) : mode.up lower farther n := by
  cases mode <;> simp [RoundingMode.up] at up ⊢ <;> omega

theorem prescribed_mono {y : Int} (positive : 0 < n) (below : x ≤ y) :
    prescribed mode x n ≤ prescribed mode y n := by
  have wholeX := Int.ediv_mul_add_emod x n
  have wholeY := Int.ediv_mul_add_emod y n
  have lowers : x / n ≤ y / n := Int.ediv_le_ediv (by omega) below
  simp only [prescribed_eq]
  rcases lowers.lt_or_eq with apart | same
  · have spaced : (x / n + 1) * n ≤ y / n * (n : Int) :=
      mul_le_mul_of_nonneg_right apart (by omega)
    rw [add_mul] at spaced
    split_ifs <;> omega
  · rw [same] at wholeX ⊢
    have low := Int.emod_nonneg x (b := n) (by omega)
    have farther : x % n ≤ y % n := by omega
    split_ifs with upX upY
    · rfl
    · exact absurd ⟨by omega, up_mono farther upX.2⟩ upY
    · omega
    · rfl

/-- Both functions return the prescribed multiple for every mode, the second as for a positive
number on the whole line. -/
theorem rounding_is_prescribed (mode : RoundingMode) (positive : 0 < n) :
    (∀ x, roundNumberToIncrement x n mode = prescribed mode x n) ∧
    (∀ x, roundNumberToIncrementAsIfPositive x n mode = prescribed mode.asIfPositive x n) ∧
    ∀ round ∈ [roundNumberToIncrement, roundNumberToIncrementAsIfPositive],
      (∀ k : Int, round (k * n) n mode = k * n) ∧
      (∀ x y, x ≤ y → round x n mode ≤ round y n mode) ∧
      ∀ x, (n : Int) ∣ round x n mode ∧ |round x n mode - x| < n := by
  have fits (mode : RoundingMode) :
      (∀ k : Int, prescribed mode (k * n) n = k * n) ∧
      (∀ x y, x ≤ y → prescribed mode x n ≤ prescribed mode y n) ∧
      ∀ x, (n : Int) ∣ prescribed mode x n ∧ |prescribed mode x n - x| < n :=
    ⟨fun k => if_pos (Int.mul_emod_left k n), fun x y => prescribed_mono positive,
      fun x => ⟨dvd_prescribed, abs_prescribed_sub_lt positive⟩⟩
  simp only [round_number_to_increment_eq positive,
    round_number_to_increment_as_if_positive_eq positive, List.forall_mem_cons, implies_true,
    true_and]
  exact ⟨fits mode, fits mode.asIfPositive, by simp⟩

/-- Minus fifteen lies between minus twenty and minus ten, at the same distance from both. -/
theorem rounding_is_prescribed_tie :
    roundNumberToIncrement (-15) 10 .halfExpand = -20 ∧
      roundNumberToIncrementAsIfPositive (-15) 10 .halfExpand = -10 ∧
      prescribed .halfExpand (-15) 10 = -20 ∧ prescribed .halfCeil (-15) 10 = -10 := by
  have rounds := rounding_is_prescribed (n := 10) .halfExpand (by decide)
  have away : prescribed .halfExpand (-15) 10 = -20 := by decide
  have upward : prescribed .halfCeil (-15) 10 = -10 := by decide
  exact ⟨(rounds.1 _).trans away, (rounds.2.1 _).trans upward, away, upward⟩

end Ladybone.Temporal
