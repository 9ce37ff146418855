import Mathlib.Tactic.Ring

/-!
# Variable-size integers of EBML

The cursor of `Streamer` is the list of the octets behind it. `int` has 32 bits, `size_t` and
`i64` have 64.
-/

namespace Ladybone.Media.Matroska

inductive DecoderError where
  | endOfStream
  | corrupted (message : String)
deriving DecidableEq

abbrev Reads (α : Type) := List UInt8 → Except DecoderError (α × List UInt8)

def readOctet : Reads UInt8
  | [] => .error .endOfStream
  | octet :: rest => .ok (octet, rest)

def countLeadingZeroesSafe (octet : UInt8) : Nat :=
  if octet = 0 then 8 else 7 - octet.toNat.log2

/-- The loop that shifts further octets into a result of `width` bits. -/
def readMore (width : Nat) : Nat → Nat → Reads Nat
  | 0, result, stream => .ok (result, stream)
  | left + 1, result, stream => do
    let (octet, stream) ← readOctet stream
    readMore width left ((result <<< 8 ||| octet.toNat) % 2 ^ width) stream

/-- The three readers differ in their accumulator and in what they return of it. -/
def readCoded {α : Type} (message : String) (width : Nat) (first : UInt8 → Nat → Nat)
    (value : Nat → Nat → α) : Reads α := fun stream => do
  let (lengthByte, stream) ← readOctet stream
  let length := countLeadingZeroesSafe lengthByte + 1
  if 8 < length then throw (.corrupted message)
  let (result, stream) ← readMore width (length - 1) (first lengthByte length) stream
  return (value length result, stream)

def readElementSize : Reads (Option Nat) :=
  readCoded "Element Data Size 8 bytes or less" 64 (fun lengthByte _ => lengthByte.toNat)
    fun length result =>
      let mask := 0xffffffffffffffff >>> (64 - 7 * length)
      if result &&& mask = mask then none else some (result &&& mask)

def withoutMarker (lengthByte : UInt8) (length : Nat) : Nat := lengthByte.toNat &&& 0xff >>> length

def signExtend (result : Nat) : Nat := if result < 2 ^ 31 then result else result + 2 ^ 64 - 2 ^ 32

/-- The accumulator is an `int`: its type is that of the first octet under the mask. -/
def readVariableSizeInteger : Reads Nat :=
  readCoded "VINT is too large" 32 withoutMarker fun _ result => signExtend result

def readVariableSizeSignedInteger : Reads Int :=
  readCoded "VINT is too large" 64 withoutMarker fun length result =>
    Int.bmod result (2 ^ 64) - (2 ^ (length * 7 - 1) - 1)

/-! ## The encoding -/

def bigEndian : Nat → Nat → List UInt8
  | 0, _ => []
  | count + 1, n => UInt8.ofNat (n / 256 ^ count) :: bigEndian count n

/-- The marker bit and the value, in `length` octets. -/
def encode (length n : Nat) : List UInt8 := bigEndian length (2 ^ (7 * length) + n)

variable {α : Type} {width count n acc : Nat} {rest : List UInt8} {octet : UInt8}
  {message : String} {first : UInt8 → Nat → Nat} {value : Nat → Nat → α}

theorem read_more_big_endian (bounded : acc < 2 ^ width) :
    readMore width count acc (bigEndian count n ++ rest) =
      .ok ((acc * 256 ^ count + n % 256 ^ count) % 2 ^ width, rest) := by
  induction count generalizing acc with
  | zero => simp [readMore, bigEndian, Nat.mod_one, Nat.mod_eq_of_lt bounded]
  | succ count ih =>
    have octet : (UInt8.ofNat (n / 256 ^ count)).toNat = n / 256 ^ count % 256 := by simp
    have joined : acc <<< 8 ||| n / 256 ^ count % 256 = acc * 256 + n / 256 ^ count % 256 := by
      rw [← Nat.shiftLeft_add_eq_or_of_lt (Nat.mod_lt _ (by decide)), Nat.shiftLeft_eq]
    change readMore width count ((acc <<< 8 ||| UInt8.toNat _) % _) (bigEndian count n ++ rest) = _
    rw [octet, joined, ih (Nat.mod_lt _ (Nat.two_pow_pos width)), Nat.mod_pow_succ]
    congr 2
    rw [Nat.add_mod, Nat.mod_mul_mod, ← Nat.add_mod]
    ring_nf

theorem read_coded (length : countLeadingZeroesSafe octet = count) (short : count < 8)
    (bounded : first octet (count + 1) < 2 ^ width) :
    readCoded message width first value (octet :: bigEndian count n ++ rest) =
      .ok (value (count + 1)
        ((first octet (count + 1) * 256 ^ count + n % 256 ^ count) % 2 ^ width), rest) := by
  have read := @read_more_big_endian width count n _ rest bounded
  have enough : ¬8 < count + 1 := by omega
  simp [readCoded, readOctet, bind, Except.bind, length, enough, read, pure, Except.pure]

section
variable (short : count < 8) (small : n < 2 ^ (7 * (count + 1)))
include short small

theorem encode_head :
    let marked := 2 ^ (7 * (count + 1)) + n
    ∃ octet, encode (count + 1) n = octet :: bigEndian count marked ∧
      countLeadingZeroesSafe octet = count ∧ octet.toNat = marked / 256 ^ count ∧
      withoutMarker octet (count + 1) = n / 256 ^ count ∧
      marked % 256 ^ count = n % 256 ^ count := by
  have each : ∀ count < 8, ∀ high < 2 ^ (7 - count),
      countLeadingZeroesSafe (UInt8.ofNat (2 ^ (7 - count) + high)) = count ∧
        (UInt8.ofNat (2 ^ (7 - count) + high)).toNat = 2 ^ (7 - count) + high ∧
        withoutMarker (UInt8.ofNat (2 ^ (7 - count) + high)) (count + 1) = high := by
    decide +kernel
  have pos : 0 < 256 ^ count := Nat.pow_pos (by decide)
  have split : 2 ^ (7 * (count + 1)) = 256 ^ count * 2 ^ (7 - count) := by
    rw [show 256 = 2 ^ 8 from rfl, ← Nat.pow_mul, ← Nat.pow_add]
    congr 1
    omega
  rw [split] at small
  obtain ⟨length, whole, masked⟩ := each count short _ (Nat.div_lt_of_lt_mul small)
  refine ⟨_, rfl, ?_⟩
  rw [split, Nat.mul_add_div pos, Nat.mul_add_mod]
  exact ⟨length, whole, masked, rfl⟩

theorem masked_read (wide : 2 ^ 8 ≤ 2 ^ width) :
    readCoded message width withoutMarker value (encode (count + 1) n ++ rest) =
      .ok (value (count + 1) (n % 2 ^ width), rest) := by
  obtain ⟨octet, code, length, -, masked, low⟩ := encode_head short small
  have bounded : withoutMarker octet (count + 1) < 2 ^ width :=
    Nat.lt_of_le_of_lt Nat.and_le_left (Nat.lt_of_lt_of_le octet.toNat_lt wide)
  rw [code, read_coded length short bounded, masked, low, Nat.div_add_mod']

theorem element_size_read : readElementSize (encode (count + 1) n ++ rest) =
    .ok (if n = 2 ^ (7 * (count + 1)) - 1 then none else some n, rest) := by
  obtain ⟨octet, code, length, whole, -⟩ := encode_head short small
  have below : 2 ^ (7 * (count + 1)) ≤ 2 ^ 56 := Nat.pow_le_pow_right (by decide) (by omega)
  have each : ∀ count < 8,
      0xffffffffffffffff >>> (64 - 7 * (count + 1)) = 2 ^ (7 * (count + 1)) - 1 := by
    decide
  have mask (k : Nat) : k &&& 2 ^ (7 * (count + 1)) - 1 = k % 2 ^ (7 * (count + 1)) :=
    Nat.and_two_pow_sub_one_eq_mod ..
  rw [code, readElementSize, read_coded length short (Nat.lt_trans octet.toNat_lt (by decide)),
    whole, Nat.div_add_mod', Nat.mod_eq_of_lt (by omega), each count short]
  dsimp only
  rw [mask, Nat.add_mod_left, Nat.mod_eq_of_lt small]

end

theorem read_more_error {stream : List UInt8} :
    readMore width count acc stream ≠ .error (.corrupted message) := by
  induction count generalizing acc stream with
  | zero => simp [readMore]
  | succ count ih =>
    cases stream with
    | nil => simp [readMore, readOctet, bind, Except.bind]
    | cons octet rest => exact ih

/-- The reader refuses the first octet, whatever follows. -/
def Rejects (reads : Reads α) (octet : UInt8) : Prop :=
  ∀ rest, ∃ message, reads (octet :: rest) = .error (.corrupted message)

theorem rejects_iff : Rejects (readCoded message width first value) octet ↔ octet = 0 := by
  constructor
  · intro rejects
    by_contra nonzero
    obtain ⟨_, rejected⟩ := rejects []
    have enough : ¬8 < countLeadingZeroesSafe octet + 1 := by
      rw [countLeadingZeroesSafe, if_neg nonzero]
      omega
    cases read : readMore width (countLeadingZeroesSafe octet)
      (first octet (countLeadingZeroesSafe octet + 1)) [] <;>
      simp [readCoded, readOctet, bind, Except.bind, enough, read, pure, Except.pure] at rejected
    exact read_more_error (rejected ▸ read)
  · rintro rfl rest
    exact ⟨message, rfl⟩

theorem variable_size_integers_exact_iff (length n : Nat) (least : 1 ≤ length) (most : length ≤ 8)
    (small : n < 2 ^ (7 * length)) (rest : List UInt8) :
    (readVariableSizeInteger (encode length n ++ rest) = .ok (n, rest) ∧
      readElementSize (encode length n ++ rest) =
        .ok (if n = 2 ^ (7 * length) - 1 then none else some n, rest) ∧
      readVariableSizeSignedInteger (encode length n ++ rest) =
        .ok (n - (2 ^ (7 * length - 1) - 1), rest) ∧
      ∀ octet, (Rejects readVariableSizeInteger octet ↔ Rejects readElementSize octet) ∧
        (Rejects readElementSize octet ↔ Rejects readVariableSizeSignedInteger octet)) ↔
      n < 2 ^ 31 := by
  obtain ⟨count, rfl⟩ := Nat.exists_eq_add_of_le' least
  have short : count < 8 := by omega
  have below : 2 ^ (7 * (count + 1)) ≤ 2 ^ 56 := Nat.pow_le_pow_right (by decide) (by omega)
  have integer : signExtend (n % 2 ^ 32) = n ↔ n < 2 ^ 31 := by
    unfold signExtend
    split_ifs <;> omega
  have signed : Int.bmod (n % 2 ^ 64 : Nat) (2 ^ 64) = n := by
    rw [Nat.mod_eq_of_lt (by omega)]
    exact Int.bmod_eq_of_le (by omega) (by omega)
  rw [element_size_read short small, readVariableSizeInteger, readElementSize,
    readVariableSizeSignedInteger, masked_read short small (by decide),
    masked_read short small (by decide), signed, Nat.mul_comm (count + 1)]
  simpa [rejects_iff] using integer

theorem largest_exact_integer :
    readVariableSizeInteger (encode 5 (2 ^ 31 - 1) ++ [7]) = .ok (2 ^ 31 - 1, [7]) :=
  ((variable_size_integers_exact_iff 5 (2 ^ 31 - 1) (by decide) (by decide) (by decide) [7]).mpr
    (by decide)).1

/-- The octets 08 80 00 00 00. -/
theorem variable_size_integer_truncated :
    readVariableSizeInteger (encode 5 (2 ^ 31)) = .ok (2 ^ 64 - 2 ^ 31, []) := by
  decide

end Ladybone.Media.Matroska
