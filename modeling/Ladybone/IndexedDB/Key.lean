import Mathlib.Data.Rat.Floor
import Mathlib.Data.List.Lex
import Mathlib.Data.Prod.Lex
import Mathlib.Order.Fin.Basic
import Mathlib.Tactic.Order

/-!
# IndexedDB keys and their order

`Key` transcribes `Internal/Key.h` without the `Invalid` type: a conversion
that yields an invalid key is a separate outcome, and no invalid key is ever
compared. Doubles are exact values with both infinities, two zeros and no NaN.
Strings are the UTF-16 code units that `code_unit_less_than` compares. The keys
are generic in their numbers: comparing two keys cannot tell a zero from the
other, so the order is that of keys over the exact values.
-/

namespace Ladybone.IndexedDB

/-- Minus infinity, a finite value, plus infinity. -/
abbrev ExactValue := WithBot (WithTop ℚ)

/-- A double other than NaN; `exact 0` is the zero without a sign. -/
inductive Double where
  | negativeZero
  | exact (value : ExactValue)

namespace Double

abbrev ofNat (value : Nat) : Double := .exact ((value : ℚ) : WithTop ℚ)

def value : Double → ExactValue
  | .negativeZero => 0
  | .exact value => value

instance : LT Double := ⟨fun a b => a.value < b.value⟩

instance : DecidableLT Double := fun a b => inferInstanceAs (Decidable (a.value < b.value))

end Double

abbrev CodeUnit := Fin 65536

abbrev Byte := Fin 256

abbrev DOMString := List CodeUnit

inductive KeyType where
  | number
  | date
  | string
  | binary
  | array
deriving DecidableEq

inductive KeyOf (Number : Type) where
  | number (value : Number)
  | date (value : Number)
  | string (value : DOMString)
  | binary (value : List Byte)
  | array (value : List (KeyOf Number))

abbrev Key := KeyOf Double

namespace KeyOf

variable {Number : Type}

def type : KeyOf Number → KeyType
  | .number _ => .number
  | .date _ => .date
  | .string _ => .string
  | .binary _ => .binary
  | .array _ => .array

/-- Step 3 of comparing two keys, read for different types. -/
def compareTypes (ta tb : KeyType) : Int :=
  if ta = .array then 1
  else if tb = .array then -1
  else if ta = .binary then 1
  else if tb = .binary then -1
  else if ta = .string then 1
  else if tb = .string then -1
  else if ta = .date then 1
  else -1

/-- `va > vb` is tested first for numbers and dates. -/
def compareDoubles [LT Number] [DecidableLT Number] (va vb : Number) : Int :=
  if vb < va then 1 else if va < vb then -1 else 0

/-- Strings and byte sequences test `va < vb` first; both orders are
lexicographic on the units, a proper prefix being smaller. -/
def compareUnits {Unit : Type} [LinearOrder Unit] (va vb : List Unit) : Int :=
  if va < vb then -1 else if vb < va then 1 else 0

section
variable [LT Number] [DecidableLT Number]

mutual

def compareTwoKeys : KeyOf Number → KeyOf Number → Int
  | .number va, .number vb => compareDoubles va vb
  | .date va, .date vb => compareDoubles va vb
  | .string va, .string vb => compareUnits va vb
  | .binary va, .binary vb => compareUnits va vb
  | .array va, .array vb => compareElements va vb
  | a, b => compareTypes a.type b.type

/-- The element loop of the array case followed by its comparison of sizes. -/
def compareElements : List (KeyOf Number) → List (KeyOf Number) → Int
  | [], [] => 0
  | [], _ :: _ => -1
  | _ :: _, [] => 1
  | a :: as, b :: bs =>
    let c := compareTwoKeys a b
    if c ≠ 0 then c else compareElements as bs

end

end

mutual

def map {Other : Type} (convert : Number → Other) : KeyOf Number → KeyOf Other
  | .number value => .number (convert value)
  | .date value => .date (convert value)
  | .string value => .string value
  | .binary value => .binary value
  | .array value => .array (mapElements convert value)

def mapElements {Other : Type} (convert : Number → Other) :
    List (KeyOf Number) → List (KeyOf Other)
  | [] => []
  | key :: later => map convert key :: mapElements convert later

end

def KeyType.rank : KeyType → Nat
  | .number => 0
  | .date => 1
  | .string => 2
  | .binary => 3
  | .array => 4

theorem rank_injective {ta tb : KeyType} (same : KeyType.rank ta = KeyType.rank tb) : ta = tb := by
  cases ta <;> cases tb <;> simp_all [KeyType.rank]

theorem induction_on {motive : KeyOf Number → Prop} (key : KeyOf Number)
    (number : ∀ val, motive (.number val))
    (date : ∀ val, motive (.date val)) (string : ∀ val, motive (.string val))
    (binary : ∀ val, motive (.binary val))
    (array : ∀ val, (∀ elem ∈ val, motive elem) → motive (.array val)) :
    motive key := by
  refine KeyOf.rec (motive_1 := motive)
    (motive_2 := fun elements => ∀ elem ∈ elements, motive elem)
    number date string binary array ?_ ?_ key
  · simp
  · intro head tail headHolds tailHolds
    exact List.forall_mem_cons.mpr ⟨headHolds, tailHolds⟩

section
variable [LinearOrder Number]

theorem compare_of_types_ne {a b : KeyOf Number} (different : a.type ≠ b.type) :
    compareTwoKeys a b = if KeyType.rank a.type < KeyType.rank b.type then -1 else 1 := by
  cases a <;> cases b <;>
    first
      | exact absurd rfl different
      | rw [compareTwoKeys] <;> first | rfl | simp

theorem compare_doubles_eq_zero (va vb : Number) : compareDoubles va vb = 0 ↔ va = vb := by
  unfold compareDoubles
  split_ifs with greater less
  · simp [ne_of_gt greater]
  · simp [ne_of_lt less]
  · simp [le_antisymm (not_lt.mp greater) (not_lt.mp less)]

theorem compare_doubles_le_zero (va vb : Number) : compareDoubles va vb ≤ 0 ↔ va ≤ vb := by
  unfold compareDoubles
  split_ifs with greater less
  · simp [greater]
  · simp [le_of_lt less]
  · simp [not_lt.mp greater]

section
variable {Unit : Type} [LinearOrder Unit]

theorem compare_units_eq_zero (va vb : List Unit) : compareUnits va vb = 0 ↔ va = vb := by
  unfold compareUnits
  split_ifs with less greater
  · simp [ne_of_lt less]
  · simp [ne_of_gt greater]
  · simp [le_antisymm (not_lt.mp greater) (not_lt.mp less)]

theorem compare_units_le_zero (va vb : List Unit) : compareUnits va vb ≤ 0 ↔ va ≤ vb := by
  unfold compareUnits
  split_ifs with less greater
  · simp [le_of_lt less]
  · simp [greater]
  · simp [not_lt.mp greater]

end

theorem compare_elements_eq_zero {as : List (KeyOf Number)} (bs : List (KeyOf Number))
    (elements : ∀ a ∈ as, ∀ b, compareTwoKeys a b = 0 ↔ a = b) :
    compareElements as bs = 0 ↔ as = bs := by
  induction as generalizing bs with
  | nil => cases bs <;> simp [compareElements]
  | cons a _ ih =>
    cases bs with
    | nil => simp [compareElements]
    | cons b bs =>
      have head := elements a (by simp) b
      have tail := ih bs fun other mem => elements other (by simp [mem])
      simp only [compareElements, List.cons.injEq]
      split_ifs with decided
      · exact ⟨fun zero => absurd zero decided, fun same => absurd (head.mpr same.1) decided⟩
      · rw [tail]
        simp [head.mp (not_not.mp decided)]

theorem compare_exact_eq_zero (a b : KeyOf Number) : compareTwoKeys a b = 0 ↔ a = b := by
  induction a using induction_on generalizing b with
  | number | date =>
    cases b <;> simp [compareTwoKeys, compareTypes, type, compare_doubles_eq_zero]
  | string | binary =>
    cases b <;> simp [compareTwoKeys, compareTypes, type, compare_units_eq_zero]
  | array va ih =>
    cases b with
    | array vb =>
      simp [compareTwoKeys, compare_elements_eq_zero vb ih]
    | _ => simp [compareTwoKeys, compareTypes, type]

theorem compare_doubles_swap (va vb : Number) : compareDoubles vb va = -compareDoubles va vb := by
  unfold compareDoubles
  split_ifs <;> first | rfl | (exfalso; order)

theorem compare_units_swap {Unit : Type} [LinearOrder Unit] (va vb : List Unit) :
    compareUnits vb va = -compareUnits va vb := by
  unfold compareUnits
  split_ifs <;> first | rfl | (exfalso; order)

theorem compare_elements_swap {as : List (KeyOf Number)} (bs : List (KeyOf Number))
    (elements : ∀ a ∈ as, ∀ b, compareTwoKeys b a = -compareTwoKeys a b) :
    compareElements bs as = -compareElements as bs := by
  induction as generalizing bs with
  | nil => cases bs <;> simp [compareElements]
  | cons a _ ih =>
    cases bs with
    | nil => simp [compareElements]
    | cons b bs =>
      have head := elements a (by simp) b
      have tail := ih bs fun other mem => elements other (by simp [mem])
      simp only [compareElements]
      split_ifs <;> omega

theorem compare_swap (a b : KeyOf Number) : compareTwoKeys b a = -compareTwoKeys a b := by
  induction a using induction_on generalizing b with
  | number va | date va =>
    cases b <;> simp [compareTwoKeys, compareTypes, type, compare_doubles_swap va]
  | string va | binary va =>
    cases b <;> simp [compareTwoKeys, compareTypes, type, compare_units_swap va]
  | array va ih =>
    cases b with
    | array vb =>
      exact compare_elements_swap vb ih
    | _ => simp [compareTwoKeys, compareTypes, type]

theorem rank_le_of_compare_le_zero {a b : KeyOf Number} (ordered : compareTwoKeys a b ≤ 0) :
    KeyType.rank a.type ≤ KeyType.rank b.type := by
  by_cases different : a.type = b.type
  · rw [different]
  · rw [compare_of_types_ne different] at ordered
    omega

theorem compare_trans_of_types {a b c : KeyOf Number} (mixed : ¬(a.type = b.type ∧ b.type = c.type))
    (first : compareTwoKeys a b ≤ 0) (second : compareTwoKeys b c ≤ 0) :
    compareTwoKeys a c ≤ 0 := by
  have lower := rank_le_of_compare_le_zero first
  have upper := rank_le_of_compare_le_zero second
  have apart : a.type ≠ c.type := by
    intro ends
    have outer : KeyType.rank a.type = KeyType.rank c.type := by rw [ends]
    exact mixed ⟨rank_injective (by omega), rank_injective (by omega)⟩
  rw [compare_of_types_ne apart]
  have distinct : KeyType.rank a.type ≠ KeyType.rank c.type :=
    fun same => apart (rank_injective same)
  rw [if_pos (by omega)]
  decide

theorem compare_elements_trans (as bs cs : List (KeyOf Number))
    (elements : ∀ a ∈ as, ∀ b c, compareTwoKeys a b ≤ 0 →
      compareTwoKeys b c ≤ 0 → compareTwoKeys a c ≤ 0)
    (first : compareElements as bs ≤ 0) (second : compareElements bs cs ≤ 0) :
    compareElements as cs ≤ 0 := by
  induction as generalizing bs cs with
  | nil => cases cs <;> simp [compareElements]
  | cons a _ ih =>
    cases bs with
    | nil => simp [compareElements] at first
    | cons b bs =>
      cases cs with
      | nil => simp [compareElements] at second
      | cons c cs =>
        have tail := ih bs cs fun other mem => elements other (by simp [mem])
        simp only [compareElements] at first second ⊢
        by_cases firstDecided : compareTwoKeys a b = 0
        · have sameHead := (compare_exact_eq_zero a b).mp firstDecided
          subst sameHead
          simp only [firstDecided, ne_eq, not_true_eq_false] at first
          by_cases secondDecided : compareTwoKeys a c = 0
          · simp only [secondDecided, ne_eq, not_true_eq_false] at second ⊢
            exact tail first second
          · simpa [secondDecided] using second
        · rw [if_pos firstDecided] at first
          by_cases secondDecided : compareTwoKeys b c = 0
          · rwa [← (compare_exact_eq_zero b c).mp secondDecided, if_pos firstDecided]
          · rw [if_pos secondDecided] at second
            have heads := elements a (by simp) b c first second
            by_cases ends : compareTwoKeys a c = 0
            · have back := compare_swap b c
              rw [← (compare_exact_eq_zero a c).mp ends] at back second
              omega
            · rwa [if_pos ends]

theorem compare_trans (a b c : KeyOf Number) (first : compareTwoKeys a b ≤ 0)
    (second : compareTwoKeys b c ≤ 0) : compareTwoKeys a c ≤ 0 := by
  by_cases same : a.type = b.type ∧ b.type = c.type
  · induction a using induction_on generalizing b c with
    | number | date =>
      cases b <;> cases c <;> simp only [type, reduceCtorEq, and_false, false_and] at same
      simp only [compareTwoKeys, compare_doubles_le_zero] at first second ⊢
      exact le_trans first second
    | string | binary =>
      cases b <;> cases c <;> simp only [type, reduceCtorEq, and_false, false_and] at same
      simp only [compareTwoKeys, compare_units_le_zero] at first second ⊢
      exact le_trans first second
    | array _ ih =>
      cases b <;> cases c <;> simp only [type, reduceCtorEq, and_false, false_and] at same
      refine compare_elements_trans _ _ _ ?_ first second
      intro elem mem left right below above
      by_cases sameInner : elem.type = left.type ∧ left.type = right.type
      · exact ih elem mem left right below above sameInner
      · exact compare_trans_of_types sameInner below above
  · exact compare_trans_of_types same first second

instance : LinearOrder (KeyOf Number) where
  le a b := compareTwoKeys a b ≤ 0
  lt a b := compareTwoKeys a b < 0
  le_refl a := le_of_eq ((compare_exact_eq_zero a a).mpr rfl)
  le_trans := compare_trans
  lt_iff_le_not_ge a b := by
    have swapped := compare_swap a b
    omega
  le_antisymm a b below above := by
    have swapped := compare_swap a b
    exact (compare_exact_eq_zero a b).mp (by omega)
  le_total a b := by
    have swapped := compare_swap a b
    omega
  toDecidableLE a b := inferInstanceAs (Decidable (compareTwoKeys a b ≤ 0))
  toDecidableEq a b := decidable_of_iff (compareTwoKeys a b = 0) (compare_exact_eq_zero a b)
  toDecidableLT a b := inferInstanceAs (Decidable (compareTwoKeys a b < 0))

end

/-! ## The two zeros -/

theorem compare_elements_map {Other : Type} [LT Number] [DecidableLT Number] [LT Other]
    [DecidableLT Other] {convert : Number → Other} {as : List (KeyOf Number)}
    (elements : ∀ a ∈ as, ∀ b, compareTwoKeys (a.map convert) (b.map convert) =
      compareTwoKeys a b) (bs : List (KeyOf Number)) :
    compareElements (mapElements convert as) (mapElements convert bs) = compareElements as bs := by
  induction as generalizing bs with
  | nil => cases bs <;> rfl
  | cons a _ ih =>
    cases bs with
    | nil => rfl
    | cons b bs =>
      simp only [mapElements, compareElements, elements a List.mem_cons_self b,
        ih (fun other mem => elements other (List.mem_cons_of_mem _ mem)) bs]

/-- A key without the sign of its zeros. -/
def unsigned (key : Key) : KeyOf ExactValue := key.map Double.value

theorem compare_unsigned (a b : Key) :
    compareTwoKeys a.unsigned b.unsigned = compareTwoKeys a b := by
  induction a using induction_on generalizing b with
  | number | date | string | binary => cases b <;> rfl
  | array va ih =>
    cases b with
    | array vb => exact compare_elements_map ih vb
    | _ => rfl

@[simp] theorem compare_lt_zero (a b : Key) :
    compareTwoKeys a b < 0 ↔ a.unsigned < b.unsigned := by
  rw [← compare_unsigned]
  rfl

@[simp] theorem compare_le_zero (a b : Key) :
    compareTwoKeys a b ≤ 0 ↔ a.unsigned ≤ b.unsigned := by
  rw [← compare_unsigned]
  rfl

@[simp] theorem compare_eq_zero (a b : Key) :
    compareTwoKeys a b = 0 ↔ a.unsigned = b.unsigned := by
  rw [← compare_unsigned, compare_exact_eq_zero]

@[simp] theorem compare_pos (a b : Key) :
    0 < compareTwoKeys a b ↔ b.unsigned < a.unsigned := by
  rw [← compare_lt_zero, ← compare_unsigned a, ← compare_unsigned b, compare_swap]
  omega

theorem map_elements_injective {Other : Type} {convert : Number → Other}
    {as : List (KeyOf Number)} (elements : ∀ a ∈ as, ∀ b, a.map convert = b.map convert → a = b)
    (bs : List (KeyOf Number)) (same : mapElements convert as = mapElements convert bs) :
    as = bs := by
  induction as generalizing bs with
  | nil =>
    cases bs with
    | nil => rfl
    | cons => cases same
  | cons a _ ih =>
    cases bs with
    | nil => cases same
    | cons b bs =>
      obtain ⟨head, tail⟩ := List.cons.inj same
      rw [elements a List.mem_cons_self b head,
        ih (fun other mem => elements other (List.mem_cons_of_mem _ mem)) bs tail]

theorem map_injective {Other : Type} {convert : Number → Other}
    (injective : Function.Injective convert) : Function.Injective (map convert) := by
  intro a b same
  induction a using induction_on generalizing b with
  | number | date =>
    cases b <;> simp only [map, number.injEq, date.injEq, reduceCtorEq] at same
    rw [injective same]
  | string | binary =>
    cases b <;> simp only [map, string.injEq, binary.injEq, reduceCtorEq] at same
    rw [same]
  | array va ih =>
    cases b <;> simp only [map, array.injEq, reduceCtorEq] at same
    rw [map_elements_injective ih _ same]

/-- The value, and below the zero the one with a sign. -/
def placeOf : Double → ExactValue ×ₗ Bool
  | .negativeZero => toLex (0, false)
  | .exact value => toLex (value, true)

theorem place_of_injective : Function.Injective placeOf := by
  rintro (_ | _) (_ | _) same
  all_goals simp_all [placeOf]

instance : DecidableEq Key := (map_injective place_of_injective).decidableEq

end KeyOf
end Ladybone.IndexedDB
