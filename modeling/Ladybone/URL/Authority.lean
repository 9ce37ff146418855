import Mathlib.Data.List.Sort

/-!
# The authority state of the URL parser

`basic_parse` slices the authority at the next delimiter and moves a byte iterator; the URL
standard walks code points with one buffer. The slice starts at the UTF-8 length of the current
code point less its UTF-16 length, so behind the start of a code point that is not ASCII.
-/

namespace Ladybone.URL

open List

abbrev Text := List Char

/-- A byte of valid UTF-8, known by the code point it belongs to and its place in there. -/
structure Utf8Byte where
  codePoint : Char
  place : Nat
deriving DecidableEq

def utf8 (text : Text) : List Utf8Byte :=
  text.flatMap fun codePoint => (range codePoint.utf8Size).map (⟨codePoint, ·⟩)

/-- `*iterator`; a byte inside a code point makes no sense as a first byte. -/
def Utf8Byte.decode (byte : Utf8Byte) : Char :=
  if byte.place = 0 then byte.codePoint else '\uFFFD'

def Utf8Byte.underlyingCodePointLengthInBytes (byte : Utf8Byte) : Nat :=
  if byte.place = 0 then byte.codePoint.utf8Size else 1

def Utf8Byte.isAscii (byte : Utf8Byte) (character : Char) : Bool :=
  byte.place = 0 && byte.codePoint = character

def codeUnitLengthForCodePoint (codePoint : Char) : Nat :=
  if codePoint.toNat < 0x10000 then 1 else 2

def codePointsFrom : Nat → List Utf8Byte → Text
  | _, [] => []
  | 0, byte :: rest =>
    byte.decode :: codePointsFrom (byte.underlyingCodePointLengthInBytes - 1) rest
  | skipped + 1, _ :: rest => codePointsFrom skipped rest

def codePoints (bytes : List Utf8Byte) : Text := codePointsFrom 0 bytes

def advance (input : List Utf8Byte) (iterator : Nat) : Option Nat := do
  let byte ← input[iterator]?
  return iterator + byte.underlyingCodePointLengthInBytes

def getRemainingIncludingCodePoint (input : List Utf8Byte) (iterator : Nat) : List Utf8Byte :=
  match input[iterator]? with
  | none => []
  | some byte =>
    input.drop (iterator + byte.underlyingCodePointLengthInBytes -
      codeUnitLengthForCodePoint byte.decode)

/-! ## Percent encoding -/

variable (codePoint : Char)

def inC0ControlSet : Bool :=
  codePoint.val < 0x20 || codePoint.val > 0x7E

def inQuerySet : Bool :=
  inC0ControlSet codePoint || " \"#<>".toList.contains codePoint

def inPathSet : Bool :=
  inQuerySet codePoint || "?^`\x7b\x7d".toList.contains codePoint

def inUserinfoSet : Bool :=
  inPathSet codePoint || "/:;=@[\\]|".toList.contains codePoint

def percentByte (byte : Nat) : Text :=
  ['%', (byte / 16).digitChar.toUpper, (byte % 16).digitChar.toUpper]

def appendPercentEncoded : Text :=
  let value := codePoint.toNat
  let continuation shift := percentByte (value >>> shift &&& 0x3f ||| 0x80)
  if value ≤ 0x7f then percentByte value
  else if value ≤ 0x07ff then percentByte (value >>> 6 &&& 0x1f ||| 0xc0) ++ continuation 0
  else if value ≤ 0xffff then
    percentByte (value >>> 12 &&& 0x0f ||| 0xe0) ++ continuation 6 ++ continuation 0
  else
    percentByte (value >>> 18 &&& 0x07 ||| 0xf0) ++ continuation 12 ++ continuation 6 ++
      continuation 0

def appendPercentEncodedIfNecessary (set : Char → Bool) (codePoint : Char) : Text :=
  if set codePoint then appendPercentEncoded codePoint else [codePoint]

def percentEncode (set : Char → Bool) (input : Text) : Text :=
  input.flatMap (appendPercentEncodedIfNecessary set)

/-! ## The state as the parser runs it -/

structure Credentials where
  atSignSeen : Bool := false
  passwordTokenSeen : Bool := false
  username : Text := []
  password : Text := []

namespace Credentials

variable (seen : Credentials)

def appendUsername (text : Text) : Credentials :=
  { seen with username := seen.username ++ text }

def appendPassword (text : Text) : Credentials :=
  { seen with password := seen.password ++ text }

def append (text : Text) : Credentials :=
  if seen.passwordTokenSeen then seen.appendPassword text else seen.appendUsername text

def mark : Credentials :=
  { (if seen.atSignSeen then seen.append "%40".toList else seen) with atSignSeen := true }

def appendSlice (authority : List Utf8Byte) : Credentials :=
  let encode bytes := percentEncode inUserinfoSet (codePoints bytes)
  if seen.passwordTokenSeen then seen.appendPassword (encode authority)
  else match authority.findIdx? (·.isAscii ':') with
    | some passwordEnd =>
      ({ seen with passwordTokenSeen := true }.appendUsername
        (encode (authority.take passwordEnd))).appendPassword
        (encode (authority.drop (passwordEnd + 1)))
    | none => seen.appendUsername (encode authority)

end Credentials

structure Handover where
  (username password remaining : Text)
deriving DecidableEq

def isDelimiter (special : Bool) (byte : Utf8Byte) : Bool :=
  (if special then "@/?#\\" else "@/?#").toList.any byte.isAscii

/-- The iterations of the main loop in the authority state. The outer `none` is an iterator past
its end, or fuel run out; the inner one is the parser's failure. -/
def authorityFrom (special : Bool) (input : List Utf8Byte) :
    Nat → Nat → Credentials → Option (Option Handover)
  | 0, _, _ => none
  | fuel + 1, iterator, seen => do
    let remaining := getRemainingIncludingCodePoint input iterator
    let authority := remaining.takeWhile (!isDelimiter special ·)
    if (remaining.drop authority.length).head?.any (·.isAscii '@') then
      let iterator ← advance input (iterator + authority.length)
      authorityFrom special input fuel iterator (seen.mark.appendSlice authority)
    else if seen.atSignSeen && authority.isEmpty then return none
    else
      -- The iterator goes back one byte, and forward one code point at the end of the loop.
      guard (0 < iterator)
      let iterator ← advance input (iterator - 1)
      return some ⟨seen.username, seen.password, codePoints (input.drop iterator)⟩

def parseAuthority (special : Bool) (input : Text) (iterator : Nat) : Option (Option Handover) :=
  authorityFrom special (utf8 input) ((utf8 input).length + 1) iterator {}

/-! ## The state as the standard words it -/

def Credentials.add (seen : Credentials) (codePoint : Char) : Credentials :=
  if codePoint = ':' && !seen.passwordTokenSeen then { seen with passwordTokenSeen := true }
  else seen.append (appendPercentEncodedIfNecessary inUserinfoSet codePoint)

def standardEnds (special : Bool) (codePoint : Char) : Bool :=
  codePoint = '/' || codePoint = '?' || codePoint = '#' || special && codePoint = '\\'

/-- The pointer goes back by the buffer's length and one, and then on to the next code point. -/
def standardEnd (input : Text) (pointer : Nat) (buffer : Text) (seen : Credentials) :
    Option Handover :=
  if seen.atSignSeen && buffer.isEmpty then none
  else some ⟨seen.username, seen.password, input.drop (pointer - (buffer.length + 1) + 1)⟩

/-- The walk over the code points from the pointer on, the end of the input after the last. -/
def standardFrom (special : Bool) (input : Text) : Text → Nat → Text → Credentials → Option Handover
  | [], pointer, buffer, seen => standardEnd input pointer buffer seen
  | codePoint :: rest, pointer, buffer, seen =>
    if codePoint = '@' then
      let buffer := if seen.atSignSeen then "%40".toList ++ buffer else buffer
      standardFrom special input rest (pointer + 1) []
        (buffer.foldl Credentials.add { seen with atSignSeen := true })
    else if standardEnds special codePoint then standardEnd input pointer buffer seen
    else standardFrom special input rest (pointer + 1) (buffer ++ [codePoint]) seen

def standardAuthority (special : Bool) (input : Text) (pointer : Nat) : Option Handover :=
  standardFrom special input (input.drop pointer) pointer [] {}

/-- In front of each at sign, the text starts with an ASCII code point or is empty. -/
def startsAscii (special : Bool) (text : Text) : Bool :=
  ((text.takeWhile (!standardEnds special ·)).splitOn '@').dropLast.all fun slice =>
    slice.head?.all (·.utf8Size = 1)

/-! ## Bytes of a text -/

@[simp]
theorem utf8_nil : utf8 [] = [] := rfl

@[simp]
theorem utf8_append (front rest : Text) : utf8 (front ++ rest) = utf8 front ++ utf8 rest := by
  simp [utf8]

theorem utf8_cons (rest : Text) : utf8 (codePoint :: rest) =
    ⟨codePoint, 0⟩ :: (range' 1 (codePoint.utf8Size - 1)).map (⟨codePoint, ·⟩) ++ utf8 rest := by
  obtain ⟨less, size⟩ := Nat.exists_eq_succ_of_ne_zero codePoint.utf8Size_pos.ne'
  rw [utf8, flatMap_cons, ← utf8, size, range_succ_eq_map]
  simp [range'_eq_map_range, Nat.add_comm]

theorem utf8_ascii (ascii : codePoint.utf8Size = 1) (rest : Text) :
    utf8 (codePoint :: rest) = ⟨codePoint, 0⟩ :: utf8 rest := by
  rw [utf8_cons, ascii]
  rfl

theorem code_points_skip (front rest : List Utf8Byte) :
    codePointsFrom front.length (front ++ rest) = codePoints rest := by
  induction front with
  | nil => rfl
  | cons _ _ ih => exact ih

@[simp]
theorem code_points_utf8 (text : Text) : codePoints (utf8 text) = text := by
  induction text with
  | nil => rfl
  | cons codePoint rest ih =>
    have skip := code_points_skip
      ((range' 1 (codePoint.utf8Size - 1)).map (⟨codePoint, ·⟩ : Nat → Utf8Byte)) (utf8 rest)
    rw [length_map, length_range', ih] at skip
    rw [utf8_cons, cons_append, codePoints, codePointsFrom]
    simpa [Utf8Byte.underlyingCodePointLengthInBytes, Utf8Byte.decode] using skip

theorem mem_utf8 {byte : Utf8Byte} {text : Text} (mem : byte ∈ utf8 text) :
    byte.codePoint ∈ text := by
  obtain ⟨codePoint, among, mem⟩ := mem_flatMap.mp mem
  obtain ⟨place, -, rfl⟩ := mem_map.mp mem
  exact among

theorem code_unit_length_lt (wide : codePoint.utf8Size ≠ 1) :
    0 < codeUnitLengthForCodePoint codePoint ∧
      codeUnitLengthForCodePoint codePoint < codePoint.utf8Size := by
  unfold codeUnitLengthForCodePoint Char.utf8Size Char.toNat at *
  simp only [UInt32.le_iff_toNat_le] at *
  split_ifs at * <;> simp_all
  omega

theorem code_unit_length_ascii (ascii : codePoint.utf8Size = 1) :
    codeUnitLengthForCodePoint codePoint = 1 := by
  unfold codeUnitLengthForCodePoint Char.utf8Size Char.toNat at *
  simp only [UInt32.le_iff_toNat_le] at *
  split_ifs at * <;> simp_all
  omega

section
variable {front rest : Text}

theorem remaining_ascii (ascii : ∀ codePoint ∈ rest.head?, codePoint.utf8Size = 1) :
    getRemainingIncludingCodePoint (utf8 front ++ utf8 rest) (utf8 front).length = utf8 rest := by
  unfold getRemainingIncludingCodePoint
  rw [getElem?_append_right (Nat.le_refl _), Nat.sub_self]
  cases rest with
  | nil => rfl
  | cons codePoint rest =>
    have narrow := ascii codePoint rfl
    rw [utf8_ascii codePoint narrow]
    simp [Utf8Byte.underlyingCodePointLengthInBytes, Utf8Byte.decode, narrow,
      code_unit_length_ascii codePoint narrow]

theorem remaining_wide {codePoint : Char} (wide : codePoint.utf8Size ≠ 1) :
    ∃ stray, stray ≠ [] ∧ (∀ byte ∈ stray, byte.place ≠ 0) ∧
      getRemainingIncludingCodePoint (utf8 front ++ utf8 (codePoint :: rest))
        (utf8 front).length = stray ++ utf8 rest := by
  obtain ⟨positive, fewer⟩ := code_unit_length_lt codePoint wide
  have missing : 0 < codePoint.utf8Size - codeUnitLengthForCodePoint codePoint := by omega
  have first : (utf8 (codePoint :: rest))[0]? = some ⟨codePoint, 0⟩ := by rw [utf8_cons]; rfl
  refine ⟨((range codePoint.utf8Size).map (⟨codePoint, ·⟩)).drop
    (codePoint.utf8Size - codeUnitLengthForCodePoint codePoint), ?_, ?_, ?_⟩
  · simp
    omega
  · intro byte mem
    obtain ⟨idx, _, rfl⟩ := mem_drop_iff_getElem.mp mem
    simp only [getElem_map, getElem_range]
    omega
  · unfold getRemainingIncludingCodePoint
    rw [getElem?_append_right (Nat.le_refl _), Nat.sub_self, first]
    simp only [Utf8Byte.underlyingCodePointLengthInBytes, Utf8Byte.decode, if_true]
    rw [Nat.add_sub_assoc fewer.le, drop_length_add_append, utf8, flatMap_cons, ← utf8,
      drop_append_of_le_length (by simp)]

end

/-! ## One slice and the code points of the buffer -/

namespace Credentials

variable (seen : Credentials)

theorem append_append (first second : Text) :
    (seen.append first).append second = seen.append (first ++ second) := by
  cases token : seen.passwordTokenSeen <;>
    simp [append, appendPassword, appendUsername, token]

theorem foldl_add_plain {buffer : Text} (plain : seen.passwordTokenSeen = true ∨ ':' ∉ buffer) :
    buffer.foldl add seen = seen.append (percentEncode inUserinfoSet buffer) := by
  induction buffer generalizing seen with
  | nil => simp [append, appendUsername, appendPassword, percentEncode]
  | cons codePoint buffer ih =>
    have added : seen.add codePoint =
        seen.append (appendPercentEncodedIfNecessary inUserinfoSet codePoint) := by
      rw [add, if_neg]
      rcases plain with token | absent
      · simp [token]
      · have other : ':' ≠ codePoint := ne_of_not_mem_cons absent
        simp [Ne.symm other]
    have still : (seen.add codePoint).passwordTokenSeen = true ∨ ':' ∉ buffer := by
      refine plain.imp (fun token => ?_) not_mem_of_not_mem_cons
      simp [added, append, appendPassword, token]
    rw [foldl_cons, ih _ still, added, append_append]
    rfl

theorem foldl_add (buffer : Text) : buffer.foldl add seen = seen.appendSlice (utf8 buffer) := by
  have elsewhere {text : Text} (absent : ':' ∉ text) :
      (utf8 text).findIdx? (·.isAscii ':') = none := by
    rw [findIdx?_eq_none_iff]
    intro byte mem
    have other : byte.codePoint ≠ ':' := fun same => absent (same ▸ mem_utf8 mem)
    simp [Utf8Byte.isAscii, other]
  by_cases plain : seen.passwordTokenSeen = true ∨ ':' ∉ buffer
  · rw [foldl_add_plain seen plain, appendSlice, append]
    simp only [code_points_utf8]
    split_ifs with token
    · rfl
    · rw [elsewhere (plain.resolve_left token)]
  · -- The first colon cuts the slice in two.
    obtain ⟨token, colon⟩ := not_or.mp plain
    obtain ⟨name, value, rfl, absent⟩ := eq_append_cons_of_mem (not_not.mp colon)
    have token := Bool.not_eq_true _ ▸ token
    have cut : (utf8 (name ++ ':' :: value)).findIdx? (·.isAscii ':') =
        some (utf8 name).length := by
      rw [utf8_append, utf8_ascii ':' rfl, findIdx?_append, elsewhere absent]
      simp [findIdx?_cons, Utf8Byte.isAscii]
    have turned : (seen.append (percentEncode inUserinfoSet name)).add ':' =
        { seen with passwordTokenSeen := true }.appendUsername
          (percentEncode inUserinfoSet name) := by
      simp [add, append, appendUsername, token]
    rw [foldl_append, foldl_cons, foldl_add_plain seen (.inr absent), turned,
      foldl_add_plain _ (.inl rfl), appendSlice, token, cut, utf8_append, utf8_ascii ':' rfl]
    simp [append, appendUsername]

theorem foldl_add_mark (authority : Text) :
    (if seen.atSignSeen then "%40".toList ++ authority else authority).foldl add
      { seen with atSignSeen := true } = seen.mark.appendSlice (utf8 authority) := by
  have kept : percentEncode inUserinfoSet "%40".toList = "%40".toList := by decide
  rw [← foldl_add, mark]
  split
  · have sign : "%40".toList.foldl add { seen with atSignSeen := true } = _ :=
      foldl_add_plain _ (.inr (by decide))
    rw [foldl_append, sign, kept]
    cases token : seen.passwordTokenSeen <;> simp [append, token, appendPassword, appendUsername]
  · rfl

end Credentials

/-! ## The two runs -/

variable {special : Bool}

def endsSlice (special : Bool) (codePoint : Char) : Bool :=
  codePoint = '@' || standardEnds special codePoint

theorem is_delimiter_iff {byte : Utf8Byte} :
    isDelimiter special byte = (byte.place = 0 && endsSlice special byte.codePoint) := by
  cases special <;> by_cases start : byte.place = 0 <;>
    simp [isDelimiter, endsSlice, standardEnds, Utf8Byte.isAscii, start, Bool.or_assoc]

theorem standard_from_slice (input rest : Text) {slice : Text}
    (within : ∀ codePoint ∈ slice, endsSlice special codePoint = false) (ptr : Nat)
    (buffer : Text) (seen : Credentials) :
    standardFrom special input (slice ++ rest) ptr buffer seen =
      standardFrom special input rest (ptr + slice.length) (buffer ++ slice) seen := by
  induction slice generalizing ptr buffer with
  | nil => simp
  | cons codePoint slice induction =>
    obtain ⟨here, within⟩ := forall_mem_cons.mp within
    simp only [endsSlice, Bool.or_eq_false_iff, decide_eq_false_iff_not] at here
    rw [cons_append, standardFrom, if_neg here.1, if_neg (by simp [here.2]), induction within]
    simp [Nat.add_assoc, Nat.add_comm 1]

theorem exists_slice (special : Bool) (text : Text) : ∃ slice ends, text = slice ++ ends ∧
    (∀ codePoint ∈ slice, endsSlice special codePoint = false) ∧
    ((∃ tail, ends = '@' :: tail) ∨
      ∀ codePoint ∈ ends.head?, codePoint ≠ '@' ∧ standardEnds special codePoint = true) := by
  refine ⟨text.takeWhile (!endsSlice special ·), text.dropWhile (!endsSlice special ·),
    takeWhile_append_dropWhile.symm, ?_, ?_⟩
  · intro codePoint mem
    simpa using (all_eq_true.mp all_takeWhile) codePoint mem
  · have stop := head?_dropWhile_not (!endsSlice special ·) text
    cases shape : text.dropWhile (!endsSlice special ·) with
    | nil => exact .inr (by simp)
    | cons codePoint tail =>
      rw [shape] at stop
      simp only [head?_cons, endsSlice, Bool.not_eq_false', Bool.or_eq_true,
        decide_eq_true_eq] at stop
      by_cases sign : codePoint = '@'
      · exact .inl ⟨tail, by rw [sign]⟩
      · exact .inr (by simpa using ⟨sign, stop.resolve_left sign⟩)

theorem take_front {front rest : List Utf8Byte}
    (within : ∀ byte ∈ front, isDelimiter special byte = false)
    (stops : ∀ byte ∈ rest.head?, isDelimiter special byte = true) :
    (front ++ rest).takeWhile (!isDelimiter special ·) = front := by
  rw [takeWhile_append_of_pos (by simpa using within)]
  cases rest with
  | nil => simp
  | cons byte rest => simp [stops byte rfl]

theorem starts_ascii_slice {slice tail : Text}
    (within : ∀ codePoint ∈ slice, endsSlice special codePoint = false) :
    startsAscii special (slice ++ '@' :: tail) =
      (slice.head?.all (·.utf8Size = 1) && startsAscii special tail) := by
  simp only [endsSlice, Bool.or_eq_false_iff, decide_eq_false_iff_not] at within
  have taken : (slice ++ '@' :: tail).takeWhile (!standardEnds special ·) =
      slice ++ '@' :: tail.takeWhile (!standardEnds special ·) := by
    rw [takeWhile_append_of_pos fun codePoint mem => by simp [(within codePoint mem).2],
      takeWhile_cons_of_pos]
    cases special <;> rfl
  have apart : ∀ codePoint ∈ slice, (codePoint == '@') = false := by
    simpa using fun codePoint mem => (within codePoint mem).1
  have cut := splitOnP_append_cons_of_forall_mem apart '@' (by simp)
    (tail.takeWhile (!standardEnds special ·))
  unfold startsAscii
  rw [taken, splitOn, cut, dropLast_cons_of_ne_nil (splitOnP_ne_nil _ _), all_cons]
  rfl

theorem not_delimiter_utf8 {slice : Text}
    (within : ∀ codePoint ∈ slice, endsSlice special codePoint = false) :
    ∀ byte ∈ utf8 slice, isDelimiter special byte = false := by
  intro byte mem
  rw [is_delimiter_iff, within _ (mem_utf8 mem), Bool.and_false]

theorem standard_ends_ascii (ends : standardEnds special codePoint = true) :
    codePoint.utf8Size = 1 := by
  simp only [standardEnds, Bool.or_eq_true, Bool.and_eq_true, decide_eq_true_eq] at ends
  rcases ends with ((rfl | rfl) | rfl) | ⟨-, rfl⟩ <;> rfl

section
variable {front slice ends : Text}
  (within : ∀ codePoint ∈ slice, endsSlice special codePoint = false)
  (stops : ∀ codePoint ∈ ends.head?, codePoint.utf8Size = 1 ∧ endsSlice special codePoint = true)
include stops

theorem delimiter_at_end : ∀ byte ∈ (utf8 ends).head?, isDelimiter special byte = true := by
  cases ends with
  | nil => simp [utf8]
  | cons codePoint rest =>
    obtain ⟨narrow, ending⟩ := stops codePoint rfl
    simp [utf8_ascii codePoint narrow, is_delimiter_iff, ending]

include within

omit within in
theorem slice_ascii (narrow : ∀ codePoint ∈ slice.head?, codePoint.utf8Size = 1) :
    getRemainingIncludingCodePoint (utf8 (front ++ (slice ++ ends))) (utf8 front).length =
      utf8 slice ++ utf8 ends := by
  rw [utf8_append, remaining_ascii, utf8_append]
  cases slice with
  | nil => exact fun codePoint mem => (stops codePoint mem).1
  | cons => exact narrow

theorem slice_found : ∃ taken,
    getRemainingIncludingCodePoint (utf8 (front ++ (slice ++ ends))) (utf8 front).length =
      taken ++ utf8 ends ∧
    (∀ byte ∈ taken, isDelimiter special byte = false) ∧ taken.isEmpty = slice.isEmpty := by
  by_cases narrow : ∀ codePoint ∈ slice.head?, codePoint.utf8Size = 1
  · refine ⟨utf8 slice, slice_ascii stops narrow, not_delimiter_utf8 within, ?_⟩
    cases slice with
    | nil => rfl
    | cons codePoint => rw [utf8_cons]; rfl
  · cases slice with
    | nil => simp at narrow
    | cons codePoint slice =>
      obtain ⟨stray, some, inside, remaining⟩ := @remaining_wide front (slice ++ ends) codePoint
        (by simpa using narrow)
      refine ⟨stray ++ utf8 slice, ?_,
        forall_mem_append.mpr ⟨fun byte mem => ?_, ?_⟩, by simp [some]⟩
      · rw [utf8_append, cons_append, remaining, utf8_append, append_assoc]
      · simp [is_delimiter_iff, inside byte mem]
      · exact not_delimiter_utf8 (forall_mem_cons.mp within).2

end

theorem authority_from_succ {input taken rest : List Utf8Byte} {iterator fuel : Nat}
    {seen : Credentials}
    (found : getRemainingIncludingCodePoint input iterator = taken ++ rest)
    (apart : ∀ byte ∈ taken, isDelimiter special byte = false)
    (stops : ∀ byte ∈ rest.head?, isDelimiter special byte = true) :
    authorityFrom special input (fuel + 1) iterator seen =
      if rest.head?.any (·.isAscii '@') then
        (advance input (iterator + taken.length)).bind fun iterator =>
          authorityFrom special input fuel iterator (seen.mark.appendSlice taken)
      else if seen.atSignSeen && taken.isEmpty then some none
      else
        Option.bind (guard (0 < iterator)) fun _ =>
          (advance input (iterator - 1)).bind fun iterator =>
            some (some ⟨seen.username, seen.password, codePoints (input.drop iterator)⟩) := by
  rw [authorityFrom]
  simp only [found, take_front apart stops, drop_left]
  rfl

theorem advance_ascii (front rest : Text) (ascii : codePoint.utf8Size = 1) :
    advance (utf8 (front ++ codePoint :: rest)) (utf8 front).length =
      some (utf8 (front ++ [codePoint])).length := by
  rw [advance, utf8_append, getElem?_append_right (Nat.le_refl _), Nat.sub_self,
    utf8_ascii codePoint ascii]
  simp [Utf8Byte.underlyingCodePointLengthInBytes, utf8_ascii codePoint ascii, ascii]

theorem authority_from_end (fuel : Nat) (front : Text) {slice ends : Text} {last : Char}
    (ascii : last.utf8Size = 1) (within : ∀ codePoint ∈ slice, endsSlice special codePoint = false)
    (stops : ∀ codePoint ∈ ends.head?, codePoint ≠ '@' ∧ standardEnds special codePoint = true)
    (seen : Credentials) :
    authorityFrom special (utf8 (front ++ last :: (slice ++ ends))) (fuel + 1)
        (utf8 (front ++ [last])).length seen =
      some (standardFrom special (front ++ last :: (slice ++ ends)) (slice ++ ends)
        (front.length + 1) [] seen) := by
  have shifted (text : Text) : front ++ last :: text = front ++ [last] ++ text := by simp
  have stopsAscii : ∀ codePoint ∈ ends.head?,
      codePoint.utf8Size = 1 ∧ endsSlice special codePoint = true := fun codePoint mem =>
    ⟨standard_ends_ascii codePoint (stops codePoint mem).2,
      by simp [endsSlice, (stops codePoint mem).2]⟩
  obtain ⟨taken, found, apart, empty⟩ := @slice_found special (front ++ [last]) slice ends
    within stopsAscii
  -- Back over the ASCII code point and forward again the iterator is where it was.
  have back : (utf8 (front ++ [last])).length - 1 = (utf8 front).length := by
    simp [utf8_ascii last ascii]
  have behind : guard (0 < (utf8 (front ++ [last])).length) = some () :=
    if_pos (by simp [utf8_ascii last ascii])
  have same : front.length + 1 + slice.length - (slice.length + 1) + 1 = front.length + 1 := by
    omega
  have handed : codePoints ((utf8 (front ++ last :: (slice ++ ends))).drop
      (utf8 (front ++ [last])).length) = slice ++ ends := by
    rw [shifted (slice ++ ends), utf8_append (front ++ [last]), drop_left, code_points_utf8]
  have listed : (front ++ last :: (slice ++ ends)).drop (front.length + 1) = slice ++ ends := by
    simp
  have noSign : ¬ (utf8 ends).head?.any (·.isAscii '@') = true := by
    cases ends with
    | nil => simp
    | cons codePoint =>
      simp [utf8_cons, Utf8Byte.isAscii, (stops codePoint rfl).1]
  have standard : standardFrom special (front ++ last :: (slice ++ ends)) ends
      (front.length + 1 + slice.length) slice seen =
        standardEnd (front ++ last :: (slice ++ ends)) (front.length + 1 + slice.length)
          slice seen := by
    cases ends with
    | nil => rfl
    | cons codePoint =>
      rw [standardFrom, if_neg (stops codePoint rfl).1, if_pos (stops codePoint rfl).2]
  rw [standard_from_slice _ _ within, nil_append, standard, standardEnd, same, shifted,
    authority_from_succ found apart (delimiter_at_end stopsAscii), if_neg noSign, back, empty,
    behind, Option.bind_some, ← shifted, advance_ascii last _ _ ascii, Option.bind_some, handed,
    listed]
  split <;> rfl

theorem authority_from_eq (fuel : Nat) (front rest : Text) {last : Char}
    (ascii : last.utf8Size = 1) (starts : startsAscii special rest = true)
    (enough : (utf8 rest).length < fuel) (seen : Credentials) :
    authorityFrom special (utf8 (front ++ last :: rest)) fuel (utf8 (front ++ [last])).length seen =
      some (standardFrom special (front ++ last :: rest) rest (front.length + 1) [] seen) := by
  induction fuel generalizing front last rest seen with
  | zero => omega
  | succ fuel induction =>
    have shifted (text : Text) : front ++ last :: text = front ++ [last] ++ text := by simp
    obtain ⟨slice, ends, rfl, within, ⟨tail, rfl⟩ | stops⟩ := exists_slice special rest
    · rw [starts_ascii_slice within, Bool.and_eq_true] at starts
      have stops : ∀ codePoint ∈ ('@' :: tail).head?,
          codePoint.utf8Size = 1 ∧ endsSlice special codePoint = true := by
        simp [endsSlice, show '@'.utf8Size = 1 from rfl]
      have found := @slice_ascii special (front ++ [last]) slice _ stops
        (by simpa [Option.all_eq_true] using starts.1)
      have spelled : front ++ last :: (slice ++ '@' :: tail) =
          (front ++ last :: slice) ++ '@' :: tail := by simp
      have bytes : (utf8 (front ++ [last])).length + (utf8 slice).length =
          (utf8 (front ++ last :: slice)).length := by
        rw [← length_append, ← utf8_append, ← shifted]
      have counted : front.length + 1 + slice.length + 1 =
          (front ++ last :: slice).length + 1 := by
        simp
        omega
      have forward := induction (front ++ last :: slice) tail (show '@'.utf8Size = 1 from rfl)
        starts.2 (by simp [utf8_ascii '@' rfl] at enough; omega)
        (seen.mark.appendSlice (utf8 slice))
      rw [standard_from_slice _ _ within, standardFrom, if_pos rfl, nil_append]
      dsimp only
      rw [Credentials.foldl_add_mark, counted, spelled, ← forward, ← spelled, shifted,
        authority_from_succ found (not_delimiter_utf8 within) (delimiter_at_end stops),
        if_pos (by simp [utf8_ascii '@' rfl, Utf8Byte.isAscii]), bytes, ← shifted, spelled,
        advance_ascii '@' _ _ rfl, Option.bind_some]
    · exact authority_from_end fuel front ascii within stops seen

end Ladybone.URL
