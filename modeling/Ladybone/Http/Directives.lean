import Ladybone.Http.Headers

/-!
# The lexer behind `extract_cache_control_directive`

The loop over a `GenericLexer`, which moves an index over the header and cuts the piece since the
last comma out of it. It is compared with the pass over the bytes of `Headers`, and that with the
elements between the commas outside quoted strings. A failed `VERIFY` is `none`.
-/

namespace Ladybone.Http

open Cookies (Text ascii)
open List

def quote : UInt8 := 0x22

def backslash : UInt8 := 0x5c

section
variable (input : Text)

def isEof (index : Nat) : Bool := decide (input.length ≤ index)

def peek (index : Nat) : UInt8 := input[index]?.getD 0

def consumeUntil (stop : UInt8 → Bool) (index : Nat) : Nat :=
  index + ((input.drop index).takeWhile fun byte => !stop byte).length

/-- How far the loop of `consume_quoted_string` runs; an escape at the very end runs past it. -/
def quotedSpan (escape quoteChar : UInt8) : Text → Nat
  | [] => 0
  | [byte] => if byte = escape then 2 else if byte = quoteChar then 0 else 1
  | byte :: next :: rest =>
    if byte = escape then 2 + quotedSpan escape quoteChar rest
    else if byte = quoteChar then 0
    else 1 + quotedSpan escape quoteChar (next :: rest)

def consumeQuotedString (escape : UInt8) (index : Nat) : Nat :=
  let quoteChar := peek input index
  if quoteChar ≠ 0x27 ∧ quoteChar ≠ quote then index
  else
    let start := index + 1
    let stop := start + quotedSpan escape quoteChar (input.drop start)
    if peek input stop ≠ quoteChar then start - 1 else stop + 1

def pieceTo (directiveStart index : Nat) : Text :=
  (input.drop directiveStart).take (index - directiveStart)

def extractLoop (directive : Text) : Nat → Nat → Nat → Option (Option Text)
  | 0, _, _ => none
  | fuel + 1, index, directiveStart =>
    let stop := consumeUntil input (fun byte => byte == quote || byte == comma) index
    let quoted := !isEof input stop && peek input stop == quote
    let after := if quoted then consumeQuotedString input backslash stop else stop
    if quoted && after == stop then some none
    else if quoted && !isEof input after then extractLoop directive fuel after directiveStart
    else
      match directiveValue directive (pieceTo input directiveStart after) with
      | some value => some (some value)
      | none =>
        if isEof input after then some none
        else if peek input after ≠ comma then none
        else extractLoop directive fuel (after + 1) (after + 1)

end

def lexCacheControlDirective (cacheControl directive : Text) : Option (Option Text) :=
  if directive.isEmpty then none
  else extractLoop cacheControl directive (cacheControl.length + 1) 0 0

/-! ## Elements -/

/-- The pieces between the commas outside quoted strings. One with an unterminated string is no
element, and nothing follows it. -/
def elementsFrom : Quoting → Text → Text → List Text
  | .outside, piece, [] => [piece]
  | .quoted, _, [] => []
  | .escaped, _, [] => []
  | .outside, piece, byte :: rest =>
    if byte = comma then piece :: elementsFrom .outside [] rest
    else elementsFrom (if byte = quote then .quoted else .outside) (piece ++ [byte]) rest
  | .quoted, piece, byte :: rest =>
    elementsFrom (if byte = backslash then .escaped else if byte = quote then .outside
      else .quoted) (piece ++ [byte]) rest
  | .escaped, piece, byte :: rest => elementsFrom .quoted (piece ++ [byte]) rest

def elements (text : Text) : List Text := elementsFrom .outside [] text

theorem extract_directive_eq {directive : Text} (quoting : Quoting) (piece text : Text) :
    extractDirectiveFrom directive quoting piece text =
      (elementsFrom quoting piece text).findSome? (directiveValue directive) := by
  induction text generalizing quoting piece with
  | nil => cases quoting <;> simp [extractDirectiveFrom, elementsFrom]
  | cons _ _ ih =>
    cases quoting with
    | outside =>
      simp only [extractDirectiveFrom, elementsFrom]
      split
      · rw [findSome?_cons, ih]
        cases directiveValue directive piece <;> rfl
      · exact ih _ _
    | quoted => exact ih _ _
    | escaped => exact ih _ _

/-! ## The lexer -/

section
variable (directive : Text) {input : Text}

theorem extract_plain {run : Text} (piece rest : Text)
    (plain : ∀ byte ∈ run, byte ≠ quote ∧ byte ≠ comma) :
    extractDirectiveFrom directive .outside piece (run ++ rest) =
      extractDirectiveFrom directive .outside (piece ++ run) rest := by
  induction run generalizing piece with
  | nil => simp
  | cons byte _ ih =>
    obtain ⟨notQuote, notComma⟩ := plain byte mem_cons_self
    have apart : ¬byte = 0x22 := notQuote
    simp only [cons_append, extractDirectiveFrom, notComma, apart, if_false]
    rw [ih _ fun other mem => plain other (mem_cons_of_mem _ mem)]
    simp

theorem extract_quoted {piece text : Text} :
    extractDirectiveFrom directive .quoted piece text =
      if text[quotedSpan backslash quote text]? = some quote then
        extractDirectiveFrom directive .outside
          (piece ++ text.take (quotedSpan backslash quote text + 1))
          (text.drop (quotedSpan backslash quote text + 1)) else none := by
  fun_induction quotedSpan backslash quote text generalizing piece with
  | case1 => rfl
  | case2 => simp [extractDirectiveFrom, backslash]
  | case3 => simp [extractDirectiveFrom, quote]
  | case4 byte plain other =>
    have notEscape : ¬byte = 0x5c := plain
    have notQuote : ¬byte = 0x22 := other
    simp [extractDirectiveFrom, notEscape, notQuote]
  | case5 next rest ih =>
    have shifted : (backslash :: next :: rest)[2 + quotedSpan backslash quote rest]? =
        rest[quotedSpan backslash quote rest]? := by
      rw [Nat.add_comm]
      rfl
    have skipped : extractDirectiveFrom directive .quoted piece (backslash :: next :: rest) =
        extractDirectiveFrom directive .quoted (piece ++ [backslash, next]) rest := by
      simp [extractDirectiveFrom, backslash]
    have width : 2 + quotedSpan backslash quote rest + 1 =
        (quotedSpan backslash quote rest + 1) + 1 + 1 := by omega
    rw [skipped, ih, shifted, width, take_succ_cons, take_succ_cons,
      drop_succ_cons, drop_succ_cons, append_assoc]
    rfl
  | case6 next rest => simp [extractDirectiveFrom, quote]
  | case7 byte next rest plain other ih =>
    have notEscape : ¬byte = 0x5c := plain
    have notQuote : ¬byte = 0x22 := other
    have shifted : (byte :: next :: rest)[1 + quotedSpan backslash quote (next :: rest)]? =
        (next :: rest)[quotedSpan backslash quote (next :: rest)]? := by
      rw [Nat.add_comm]
      rfl
    have skipped : extractDirectiveFrom directive .quoted piece (byte :: next :: rest) =
        extractDirectiveFrom directive .quoted (piece ++ [byte]) (next :: rest) := by
      rw [extractDirectiveFrom, if_neg notEscape, if_neg notQuote]
    have width : 1 + quotedSpan backslash quote (next :: rest) + 1 =
        (quotedSpan backslash quote (next :: rest) + 1) + 1 := by omega
    rw [skipped, ih, shifted, width, append_assoc]
    rfl

theorem piece_to_add (input : Text) (directiveStart idx count : Nat)
    (ordered : directiveStart ≤ idx) :
    pieceTo input directiveStart (idx + count) =
      pieceTo input directiveStart idx ++ (input.drop idx).take count := by
  have width : idx + count - directiveStart = (idx - directiveStart) + count := by omega
  have start : directiveStart + (idx - directiveStart) = idx := by omega
  rw [pieceTo, pieceTo, width, take_add, drop_drop, start]

theorem consume_until_spec {idx stop : Nat} (within : idx ≤ input.length)
    (scan : consumeUntil input (fun byte => byte == quote || byte == comma) idx = stop) :
    stop ≤ input.length ∧ idx ≤ stop ∧
      (∀ byte, input[stop]? = some byte → byte = quote ∨ byte = comma) ∧
      ∀ piece, extractDirectiveFrom directive .outside piece (input.drop idx) =
        extractDirectiveFrom directive .outside
          (piece ++ (input.drop idx).take (stop - idx)) (input.drop stop) := by
  let plain : UInt8 → Bool := fun byte => !(byte == quote || byte == comma)
  have split : (input.drop idx).takeWhile plain ++ (input.drop idx).dropWhile plain =
      input.drop idx := takeWhile_append_dropWhile
  have width : ((input.drop idx).takeWhile plain).length = stop - idx := by
    rw [← scan, consumeUntil, Nat.add_sub_cancel_left]
  have forward : idx ≤ stop := scan ▸ Nat.le_add_right _ _
  have rest : input.drop stop = (input.drop idx).dropWhile plain := by
    have dropped : ((input.drop idx).takeWhile plain ++
        (input.drop idx).dropWhile plain).drop (stop - idx) = _ := drop_left' width
    rwa [split, drop_drop, Nat.add_sub_cancel' forward] at dropped
  have run : (input.drop idx).take (stop - idx) = (input.drop idx).takeWhile plain := by
    have taken : ((input.drop idx).takeWhile plain ++
        (input.drop idx).dropWhile plain).take (stop - idx) = _ := take_left' width
    rwa [split] at taken
  refine ⟨?_, forward, ?_, ?_⟩
  · have shorter := (takeWhile_sublist plain (l := input.drop idx)).length_le
    rw [length_drop] at shorter
    omega
  · intro byte read
    have head := head?_dropWhile_not plain (input.drop idx)
    rw [← rest, head?_drop, read] at head
    simpa [plain, or_iff_not_imp_left] using head
  · intro piece
    rw [run, rest, ← extract_plain, split]
    intro byte mem
    simpa [plain] using all_eq_true.mp all_takeWhile byte mem

theorem drop_eq_cons {idx : Nat} {byte : UInt8}
    (read : input[idx]? = some byte) : input.drop idx = byte :: input.drop (idx + 1) := by
  obtain ⟨inside, same⟩ := List.getElem?_eq_some_iff.mp read
  rw [drop_eq_getElem_cons inside, same]

theorem extract_loop_eq (fuel idx directiveStart : Nat) (within : idx ≤ input.length)
    (ordered : directiveStart ≤ idx) (enough : input.length - idx < fuel) :
    extractLoop input directive fuel idx directiveStart =
      some (extractDirectiveFrom directive .outside (pieceTo input directiveStart idx)
        (input.drop idx)) := by
  induction fuel generalizing idx directiveStart with
  | zero => omega
  | succ _ ih =>
    simp only [extractLoop]
    generalize scan : consumeUntil input (fun byte => byte == quote || byte == comma) idx = stop
    obtain ⟨stopWithin, forward, stopped, scanned⟩ :=
      consume_until_spec directive within scan
    have piece := piece_to_add input directiveStart idx (stop - idx) ordered
    rw [Nat.add_sub_cancel' forward] at piece
    rw [scanned, ← piece]
    -- the end of the input closes the last element
    have closing : ∀ finish, input.length = finish →
        (match directiveValue directive (pieceTo input directiveStart finish) with
          | some val => some (some val)
          | none => some none) =
        some (extractDirectiveFrom directive .outside (pieceTo input directiveStart finish)
          (input.drop finish)) := by
      rintro finish rfl
      rw [drop_length, extractDirectiveFrom]
      cases directiveValue directive (pieceTo input directiveStart input.length) <;> rfl
    cases read : input[stop]? with
    | none =>
      have atEnd : input.length = stop := by
        have := getElem?_eq_none_iff.mp read
        omega
      simpa [isEof, atEnd] using closing stop atEnd
    | some byte =>
      have inside := (List.getElem?_eq_some_iff.mp read).1
      have notEnd : isEof input stop = false := by simpa [isEof] using inside
      have here : peek input stop = byte := by simp [peek, read]
      rw [drop_eq_cons read]
      rcases stopped byte read with isQuote | isComma
      · subst isQuote
        have opened : extractDirectiveFrom directive .outside
            (pieceTo input directiveStart stop) (quote :: input.drop (stop + 1)) =
            extractDirectiveFrom directive .quoted
              (pieceTo input directiveStart (stop + 1)) (input.drop (stop + 1)) := by
          rw [piece_to_add input directiveStart stop 1 (by omega), drop_eq_cons read]
          rfl
        rw [opened, extract_quoted]
        generalize span : quotedSpan backslash quote (input.drop (stop + 1)) = count
        have consumed : consumeQuotedString input backslash stop =
            if peek input (stop + 1 + count) ≠ quote then stop else stop + 1 + count + 1 := by
          simp only [consumeQuotedString, here, span]
          exact if_neg (by simp)
        rw [getElem?_drop]
        have closes : peek input (stop + 1 + count) = quote ↔
            input[stop + 1 + count]? = some quote := by
          unfold peek
          cases input[stop + 1 + count]? with
          | none => decide
          | some => simp
        by_cases closed : input[stop + 1 + count]? = some quote
        · have bound := (List.getElem?_eq_some_iff.mp closed).1
          have next := piece_to_add input directiveStart (stop + 1) (count + 1) (by omega)
          have progress : (stop + 1 + count + 1 == stop) = false := by simp; omega
          rw [if_pos closed, ← next, drop_drop, ← Nat.add_assoc]
          cases ended : isEof input (stop + 1 + count + 1) with
          | true =>
            have atEnd : input.length = stop + 1 + count + 1 := by
              simp only [isEof, decide_eq_true_eq] at ended
              omega
            simpa [consumed, closes.mpr closed, notEnd, here, ended, progress] using closing _ atEnd
          | false =>
            have again := ih (stop + 1 + count + 1) directiveStart (by omega) (by omega) (by omega)
            simpa [consumed, closes.mpr closed, notEnd, here, ended, progress] using again
        · simp [closed, closes, consumed, notEnd, here]
      · subst isComma
        have notQuote : (comma == quote) = false := by decide
        simp only [notEnd, here, notQuote, Bool.and_false, Bool.false_and, if_false,
          Bool.false_eq_true, ne_eq, not_true_eq_false]
        rw [extractDirectiveFrom]
        cases directiveValue directive (pieceTo input directiveStart stop) with
        | some => rfl
        | none =>
          have fresh : pieceTo input (stop + 1) (stop + 1) = [] := by simp [pieceTo]
          simp [ih (stop + 1) (stop + 1) (by omega) (le_refl _) (by omega), fresh]

end

variable {directive text : Text}

theorem lex_eq {cacheControl : Text} (nonempty : directive ≠ []) :
    lexCacheControlDirective cacheControl directive =
      some ((elements cacheControl).findSome? (directiveValue directive)) := by
  have given : directive.isEmpty = false := by simpa using nonempty
  rw [lexCacheControlDirective, given, elements, ← extract_directive_eq]
  exact extract_loop_eq directive _ 0 0 (Nat.zero_le _) (le_refl 0) (by omega)

/-! ## Names -/

/-- The value of the directive when its name is what stands before the first `=`, even behind a
quotation mark. -/
def valueByFirstEquals (directive element : Text) : Option Text :=
  if equalsIgnoringAsciiCase
      (trim httpWhitespace (element.takeWhile fun byte => byte != 0x3d)) directive then
    some (trim httpWhitespace ((element.dropWhile fun byte => byte != 0x3d).drop 1))
  else none

theorem quote_mem_trim (mem : quote ∈ text) : quote ∈ trim httpWhitespace text := by
  have kept : ∀ rest : Text, quote ∈ rest → quote ∈ rest.dropWhile httpWhitespace.contains := by
    intro rest inside
    have split : rest.takeWhile httpWhitespace.contains ++
        rest.dropWhile httpWhitespace.contains = rest := takeWhile_append_dropWhile
    rw [← split, mem_append] at inside
    rcases inside with skipped | kept
    · have blank := all_eq_true.mp all_takeWhile quote skipped
      exact absurd blank (by decide)
    · exact kept
  exact mem_reverse.mpr (kept _ (mem_reverse.mpr (kept text mem)))

theorem lowercase_eq_quote {byte : UInt8} (same : Cookies.toLowercase byte = quote) :
    byte = quote := by
  unfold Cookies.toLowercase at same
  split at same
  · rename_i upper
    have sum := congrArg UInt8.toNat same
    have lower := UInt8.le_iff_toNat_le.mp upper.1
    have higher := UInt8.le_iff_toNat_le.mp upper.2
    simp only [UInt8.toNat_add, quote, UInt8.reduceToNat] at *
    omega
  · exact same

theorem not_named (unquoted : quote ∉ directive) (quoted : quote ∈ text) :
    equalsIgnoringAsciiCase (trim httpWhitespace text) directive = false := by
  rw [← Bool.not_eq_true, HeaderList.equals_ignoring_ascii_case_iff]
  intro same
  have inside : quote ∈ lowercase (trim httpWhitespace text) :=
    mem_map.mpr ⟨quote, quote_mem_trim quoted, by decide⟩
  rw [same] at inside
  obtain ⟨byte, mem, lowered⟩ := mem_map.mp inside
  exact unquoted (lowercase_eq_quote lowered ▸ mem)

theorem directive_value_eq {elem : Text} (unquoted : quote ∉ directive) :
    directiveValue directive elem = valueByFirstEquals directive elem := by
  let plain : UInt8 → Bool := fun byte => byte != 0x3d && byte != 0x22
  have split : elem.takeWhile plain ++ elem.dropWhile plain = elem :=
    takeWhile_append_dropWhile
  have begins : ∀ byte ∈ elem.takeWhile plain, plain byte = true :=
    fun byte mem => all_eq_true.mp all_takeWhile byte mem
  have noEquals : ∀ byte ∈ elem.takeWhile plain, (byte != 0x3d) = true :=
    fun byte mem => (Bool.and_eq_true _ _ ▸ begins byte mem).1
  have head := head?_dropWhile_not plain elem
  generalize elem.takeWhile plain = name at *
  generalize elem.dropWhile plain = rest at *
  subst split
  have firstName : (name ++ rest).takeWhile plain = name ++ rest.takeWhile plain :=
    takeWhile_append_of_pos begins
  unfold valueByFirstEquals
  rw [takeWhile_append_of_pos noEquals, dropWhile_append_of_pos noEquals]
  cases rest with
  | nil =>
    have whole : directiveValue directive (name ++ []) =
        if equalsIgnoringAsciiCase (trim httpWhitespace (name ++ [])) directive then some []
        else none := by
      simp only [directiveValue]
      rw [firstName]
      simp
    rw [whole]
    rfl
  | cons byte val =>
    have ends : byte = 0x3d ∨ byte = quote := by
      simpa [plain, quote, or_iff_not_imp_left] using head
    rcases ends with rfl | rfl
    · have cut : directiveValue directive (name ++ 0x3d :: val) =
          if equalsIgnoringAsciiCase (trim httpWhitespace name) directive then
            some (trim httpWhitespace val)
          else none := by
        simp only [directiveValue]
        rw [firstName]
        simp [plain]
      rw [cut]
      simp
    · have whole : directiveValue directive (name ++ quote :: val) =
          if equalsIgnoringAsciiCase (trim httpWhitespace (name ++ quote :: val)) directive
          then some [] else none := by
        simp only [directiveValue]
        rw [firstName]
        simp [plain, quote]
      have inName : quote ∈ name ++ (quote :: val).takeWhile fun byte => byte != 0x3d := by
        simp [quote]
      rw [whole, not_named unquoted (by simp), not_named unquoted inName]
      rfl

theorem cache_control_directive_spec (cacheControl directive : Text) (nonempty : directive ≠ []) :
    lexCacheControlDirective cacheControl directive =
        some ((elements cacheControl).findSome? (directiveValue directive)) ∧
      (quote ∉ directive → lexCacheControlDirective cacheControl directive =
          some ((elements cacheControl).findSome? (valueByFirstEquals directive))) := by
  refine ⟨lex_eq nonempty, fun unquoted => ?_⟩
  rw [lex_eq nonempty]
  congr 2
  funext element
  exact directive_value_eq unquoted

/-- `Cache-Control: p="n,m=1", M =5` -/
theorem cache_control_directive_spec_max_age :
    let header := ascii ['p', '=', '"', 'n', ',', 'm', '=', '1', '"', ',', ' ', 'M', ' ', '=', '5']
    lexCacheControlDirective header (ascii ['m']) =
      some ((elements header).findSome? (valueByFirstEquals (ascii ['m']))) :=
  (cache_control_directive_spec _ _ (by decide)).2 (by decide)

/-- A quotation mark before the first `=` makes the whole element the name. -/
theorem quoted_name_not_cut :
    let header := ascii ['a', '"', 'b', '"', '=', '5']
    let directive := ascii ['a', '"', 'b', '"']
    lexCacheControlDirective header directive = some none ∧
      (elements header).findSome? (valueByFirstEquals directive) = some (ascii ['5']) := by
  decide

end Ladybone.Http
