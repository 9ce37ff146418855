import Ladybone.URL.Authority

/-!
# Search parameters

`url_encode` and `url_decode` of `URLSearchParams`, for the encoding UTF-8. A string is its bytes,
which are valid UTF-8.
-/

namespace Ladybone.URL

open List

abbrev Bytes := List UInt8

def bytesOf (text : String) : Bytes := text.toByteArray.data.toList

/-! ## Encoding -/

def inComponentSet (codePoint : Char) : Bool :=
  inUserinfoSet codePoint || "$%&+,".toList.contains codePoint

def inFormUrlencodedSet (codePoint : Char) : Bool :=
  inComponentSet codePoint || "!'()~".toList.contains codePoint

def hexByte (digit : Nat) : UInt8 := .ofNat digit.digitChar.toUpper.toNat

def percentEncodeByte (byte : UInt8) : Bytes :=
  if byte = 0x20 then [0x2B]
  else if inFormUrlencodedSet (.ofNat byte.toNat) then
    [0x25, hexByte (byte.toNat / 16), hexByte (byte.toNat % 16)]
  else [byte]

/-- The UTF-8 encoder hands on the bytes of its input. -/
def percentEncodeAfterEncoding (input : String) : Bytes :=
  (bytesOf input).flatMap percentEncodeByte

structure QueryParam where
  (name value : String)
deriving DecidableEq

def tupleBytes (tuple : QueryParam) : Bytes :=
  percentEncodeAfterEncoding tuple.name ++ 0x3D :: percentEncodeAfterEncoding tuple.value

def appendTuple (output : Bytes) (tuple : QueryParam) : Bytes :=
  (if output.isEmpty then output else output ++ [0x26]) ++ tupleBytes tuple

def urlEncode (tuples : List QueryParam) : Bytes := tuples.foldl appendTuple []

/-! ## Decoding -/

/-- The value of a digit of a base up to 36, and 255 for what is no digit. -/
def digitValue (codePoint : Char) : Nat :=
  let value := codePoint.toNat
  if 0x30 ≤ value && value ≤ 0x39 then value - 0x30
  else if 0x41 ≤ value && value ≤ 0x5a then value - 0x37
  else if 0x61 ≤ value && value ≤ 0x7a then value - 0x57
  else 255

def percentDecodeFrom : Bytes → Bytes
  | byte :: first :: second :: rest =>
    let high := digitValue (.ofNat first.toNat)
    let low := digitValue (.ofNat second.toNat)
    if byte = 0x25 && high < 16 && low < 16 then .ofNat (16 * high + low) :: percentDecodeFrom rest
    else byte :: percentDecodeFrom (first :: second :: rest)
  | bytes => bytes

def percentDecode (input : Bytes) : Bytes :=
  if input.contains 0x25 then percentDecodeFrom input else input

/-- The length of a code point by its first byte, and the bits it has there. -/
def decodeLeadingByte (byte : UInt8) : Option (Nat × Nat) :=
  if byte &&& 0x80 = 0 then some (1, byte.toNat)
  else if byte &&& 0xE0 = 0xC0 then some (2, (byte &&& 0x1F).toNat)
  else if byte &&& 0xF0 = 0xE0 then some (3, (byte &&& 0x0F).toNat)
  else if byte &&& 0xF8 = 0xF0 then some (4, (byte &&& 0x07).toNat)
  else none

/-- The code point at an iterator, if its bytes make sense, and how far the next one is. -/
def codePointAt (byte : UInt8) (rest : Bytes) : Option Nat × Nat :=
  match decodeLeadingByte byte with
  | none => (none, 1)
  | some (length, bits) =>
    let extension := rest.take (length - 1)
    if extension.length < length - 1 || extension.any (· >>> 6 ≠ 2) then (none, 1)
    else (some (extension.foldl (fun value byte => value * 64 + (byte &&& 63).toNat) bits), length)

/-- The code points of an iteration that still has to pass over `skip` bytes. What is no code point
and a surrogate are replaced. -/
def replaceInvalid : (skip : Nat) → Bytes → List Char
  | _, [] => []
  | skip + 1, _ :: rest => replaceInvalid skip rest
  | 0, byte :: rest =>
    ((codePointAt byte rest).1.filter Nat.isValidChar).elim '�' .ofNat ::
      replaceInvalid ((codePointAt byte rest).2 - 1) rest

def fromUtf8WithReplacementCharacter (bytes : Bytes) : String :=
  if valid : bytes.toByteArray.IsValidUTF8 then .ofByteArray _ valid
  else .ofList (replaceInvalid 0 bytes)

def plusToSpace (byte : UInt8) : UInt8 := if byte = 0x2B then 0x20 else byte

def decodeTuple (bytes : Bytes) : QueryParam :=
  let (name, value) :=
    if bytes.contains 0x3D then (bytes.takeWhile (· ≠ 0x3D), (bytes.dropWhile (· ≠ 0x3D)).drop 1)
    else (bytes, [])
  ⟨fromUtf8WithReplacementCharacter (percentDecode (name.map plusToSpace)),
    fromUtf8WithReplacementCharacter (percentDecode (value.map plusToSpace))⟩

def urlDecode (input : Bytes) : List QueryParam :=
  ((input.splitOn 0x26).filter (!·.isEmpty)).map decodeTuple

/-! ## Round trips -/

theorem from_utf8_bytes_of {text : String} :
    fromUtf8WithReplacementCharacter (bytesOf text) = text := by
  have same : (bytesOf text).toByteArray = text.toByteArray :=
    ByteArray.ext (Array.toList_inj.mp toList_data_toByteArray)
  rw [fromUtf8WithReplacementCharacter, dif_pos (same ▸ text.isValidUTF8)]
  exact String.toByteArray_inj.mp same

theorem percent_encode_byte_cases : ∀ n < 256,
    (0x26 ∉ percentEncodeByte (.ofNat n) ∧ 0x3D ∉ percentEncodeByte (.ofNat n)) ∧
    ((percentEncodeByte (.ofNat n)).map plusToSpace = [.ofNat n] ∧ UInt8.ofNat n ≠ 0x25 ∨
      (percentEncodeByte (.ofNat n)).map plusToSpace = [0x25, hexByte (n / 16), hexByte (n % 16)] ∧
      digitValue (.ofNat (hexByte (n / 16)).toNat) = n / 16 ∧
      digitValue (.ofNat (hexByte (n % 16)).toNat) = n % 16) := by
  decide +kernel

theorem percent_decode_from_cons {byte : UInt8} (plain : byte ≠ 0x25) {rest : Bytes} :
    percentDecodeFrom (byte :: rest) = byte :: percentDecodeFrom rest := by
  obtain _ | ⟨first, _ | ⟨second, rest⟩⟩ := rest
  · rfl
  · rfl
  · simp [percentDecodeFrom, plain]

theorem percent_decode_from_byte {byte : UInt8} {rest : Bytes} :
    percentDecodeFrom ((percentEncodeByte byte).map plusToSpace ++ rest) =
      byte :: percentDecodeFrom rest := by
  have spelled := (percent_encode_byte_cases _ byte.toNat_lt).2
  rw [UInt8.ofNat_toNat] at spelled
  obtain ⟨same, plain⟩ | ⟨same, high, low⟩ := spelled
  · rw [same]
    exact percent_decode_from_cons plain
  · have small := byte.toNat_lt
    simp only [same, cons_append, nil_append, percentDecodeFrom, high, low]
    rw [if_pos (by simp; omega), Nat.div_add_mod, UInt8.ofNat_toNat]

theorem percent_decode_eq {input : Bytes} : percentDecode input = percentDecodeFrom input := by
  rw [percentDecode]
  split
  · rfl
  · rename_i plain
    induction input with
    | nil => rfl
    | cons byte input induction =>
      simp only [contains_cons, Bool.or_eq_true, beq_iff_eq, not_or] at plain
      rw [percent_decode_from_cons (Ne.symm plain.1), ← induction plain.2]

theorem decode_encoded {text : String} : fromUtf8WithReplacementCharacter
    (percentDecode ((percentEncodeAfterEncoding text).map plusToSpace)) = text := by
  have decoded (bytes : Bytes) :
      percentDecodeFrom ((bytes.flatMap percentEncodeByte).map plusToSpace) = bytes := by
    induction bytes with
    | nil => rfl
    | cons byte bytes induction =>
      rw [flatMap_cons, map_append, percent_decode_from_byte, induction]
  rw [percent_decode_eq, percentEncodeAfterEncoding, decoded, from_utf8_bytes_of]

theorem encoded_plain {text : String} :
    ∀ byte ∈ percentEncodeAfterEncoding text, byte ≠ 0x26 ∧ byte ≠ 0x3D := by
  intro byte mem
  obtain ⟨source, -, inside⟩ := mem_flatMap.mp mem
  have plain := (percent_encode_byte_cases _ source.toNat_lt).1
  rw [UInt8.ofNat_toNat] at plain
  exact ⟨ne_of_mem_of_not_mem inside plain.1, ne_of_mem_of_not_mem inside plain.2⟩

theorem decode_tuple_bytes {tuple : QueryParam} : decodeTuple (tupleBytes tuple) = tuple := by
  have name : ∀ byte ∈ percentEncodeAfterEncoding tuple.name, decide (byte ≠ 0x3D) = true :=
    fun byte mem => decide_eq_true (encoded_plain byte mem).2
  simp only [decodeTuple, tupleBytes, takeWhile_append_of_pos name, dropWhile_append_of_pos name]
  simp [decode_encoded]

theorem foldl_append_tuple (tuple : QueryParam) (rest : List QueryParam) {output : Bytes}
    (started : output ≠ []) : (tuple :: rest).foldl appendTuple output =
      output ++ 0x26 :: [0x26].intercalate ((tuple :: rest).map tupleBytes) := by
  induction rest generalizing tuple output with
  | nil => simp [appendTuple, started]
  | cons next rest induction =>
    rw [foldl_cons, induction next (by simp [appendTuple, tupleBytes])]
    simp [appendTuple, started]

theorem url_encode_cons (tuple : QueryParam) (tuples : List QueryParam) :
    urlEncode (tuple :: tuples) = [0x26].intercalate ((tuple :: tuples).map tupleBytes) := by
  rw [urlEncode, foldl_cons]
  cases tuples with
  | nil => simp [appendTuple]
  | cons next rest =>
    rw [foldl_append_tuple next rest (by simp [appendTuple, tupleBytes])]
    simp [appendTuple]

theorem decode_url_encode (tuples : List QueryParam) : urlDecode (urlEncode tuples) = tuples := by
  cases tuples with
  | nil => rfl
  | cons tuple tuples =>
    have plain : ∀ bytes ∈ (tuple :: tuples).map tupleBytes, 0x26 ∉ bytes := by
      intro bytes mem amp
      obtain ⟨one, -, rfl⟩ := mem_map.mp mem
      obtain inside | inside : 0x26 ∈ percentEncodeAfterEncoding one.name ∨
          0x26 ∈ percentEncodeAfterEncoding one.value := by simpa [tupleBytes] using amp
      · exact (encoded_plain _ inside).1 rfl
      · exact (encoded_plain _ inside).1 rfl
    have filled : ((tuple :: tuples).map tupleBytes).filter (!·.isEmpty) =
        (tuple :: tuples).map tupleBytes := by
      simp [tupleBytes]
    rw [url_encode_cons, urlDecode, splitOn_intercalate _ plain (by simp), filled, map_map]
    exact (map_congr_left fun tuple _ => decode_tuple_bytes).trans (map_id _)

theorem search_params_codec :
    (∀ tuples : List QueryParam, urlDecode (urlEncode tuples) = tuples) ∧
      ∀ input : Bytes, urlDecode (urlEncode (urlDecode input)) = urlDecode input :=
  ⟨decode_url_encode, fun _ => decode_url_encode _⟩

end Ladybone.URL
