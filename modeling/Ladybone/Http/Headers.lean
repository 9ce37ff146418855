import Mathlib.Data.List.Sort
import Ladybone.Cookies.Matching

/-!
# Header lists and the directives of `Cache-Control`

Strings are bytes. Names are compared without regard to ASCII case throughout.
-/

namespace Ladybone.Http

open Cookies (Text ascii toLowercase)
open List

def comma : UInt8 := 0x2c

def newline : UInt8 := 0x0a

def colon : UInt8 := 0x3a

def lowercase (text : Text) : Text := text.map toLowercase

def equalsIgnoringAsciiCase (text other : Text) : Bool := lowercase text == lowercase other

def isOneOfIgnoringAsciiCase (text : Text) (others : List Text) : Bool :=
  others.any (equalsIgnoringAsciiCase text)

def containsIgnoringAsciiCase (text needle : Text) : Bool :=
  (lowercase text).tails.any (lowercase needle).isPrefixOf

def trim (characters : List UInt8) (text : Text) : Text :=
  ((text.dropWhile characters.contains).reverse.dropWhile characters.contains).reverse

def httpWhitespace : List UInt8 := [0x0a, 0x0d, 0x09, 0x20]

def normalizeHeaderValue (value : Text) : Text := trim httpWhitespace value

/-- `for_each_split_view` with `SplitBehavior::Nothing`: empty pieces are left out. -/
def splitView (separator : UInt8) (text : Text) : List Text :=
  (text.splitOn separator).filter (· ≠ [])

structure Header where
  (name value : Text)
deriving DecidableEq

def Header.isNamed (name : Text) (header : Header) : Bool :=
  equalsIgnoringAsciiCase header.name name

structure HeaderList where
  headers : List Header
deriving DecidableEq

namespace HeaderList

def contains (list : HeaderList) (name : Text) : Bool := list.headers.any (Header.isNamed name)

/-- What `for_each_header_value` visits. -/
def values (list : HeaderList) (name : Text) : List Text :=
  (list.headers.filter (Header.isNamed name)).map Header.value

def get (list : HeaderList) (name : Text) : Option Text :=
  if list.contains name then some (List.intercalate [comma, 0x20] (list.values name)) else none

/-- The name takes the spelling it already has in the list. -/
def append (list : HeaderList) (header : Header) : HeaderList :=
  match list.headers.find? (Header.isNamed header.name) with
  | some existing => ⟨list.headers ++ [{ header with name := existing.name }]⟩
  | none => ⟨list.headers ++ [header]⟩

theorem equals_ignoring_ascii_case_iff {text other : Text} :
    equalsIgnoringAsciiCase text other = true ↔ lowercase text = lowercase other := by
  exact beq_iff_eq

theorem values_append {list : HeaderList} {hdr : Header} {name : Text} :
    (list.append hdr).values name = list.values name ++ (HeaderList.mk [hdr]).values name := by
  unfold append
  split
  · rename_i existing found
    have matching : Header.isNamed hdr.name existing = true := find?_some found
    have same := equals_ignoring_ascii_case_iff.mp matching
    -- the new spelling answers to the same names
    have sameName : Header.isNamed name { hdr with name := existing.name } =
        Header.isNamed name hdr := by
      simp [Header.isNamed, equalsIgnoringAsciiCase, same]
    simp only [values, filter_append, map_append, filter_cons, sameName]
    split <;> rfl
  · simp [values]

end HeaderList

/-! ## Directives -/

inductive Quoting where
  | outside
  | quoted
  | escaped

/-- The value of a directive, if the piece between two commas is that directive. -/
def directiveValue (directive piece : Text) : Option Text :=
  let name := piece.takeWhile fun byte => byte != 0x3d && byte != 0x22
  match piece.drop name.length with
  | 0x3d :: value =>
    if equalsIgnoringAsciiCase (trim httpWhitespace name) directive then
      some (trim httpWhitespace value)
    else none
  | _ =>
    if equalsIgnoringAsciiCase (trim httpWhitespace piece) directive then some [] else none

/-- The loop of `extract_cache_control_directive`, which gives up on an unterminated string. -/
def extractDirectiveFrom (directive : Text) : Quoting → Text → Text → Option Text
  | .outside, piece, [] => directiveValue directive piece
  | .quoted, _, [] => none
  | .escaped, _, [] => none
  | .outside, piece, byte :: rest =>
    if byte = comma then
      match directiveValue directive piece with
      | some value => some value
      | none => extractDirectiveFrom directive .outside [] rest
    else
      extractDirectiveFrom directive (if byte = 0x22 then .quoted else .outside)
        (piece ++ [byte]) rest
  | .quoted, piece, byte :: rest =>
    extractDirectiveFrom directive
      (if byte = 0x5c then .escaped else if byte = 0x22 then .outside else .quoted)
      (piece ++ [byte]) rest
  | .escaped, piece, byte :: rest =>
    extractDirectiveFrom directive .quoted (piece ++ [byte]) rest

def extractCacheControlDirective (cacheControl directive : Text) : Option Text :=
  extractDirectiveFrom directive .outside [] cacheControl

def containsCacheControlDirective (cacheControl directive : Text) : Bool :=
  (extractCacheControlDirective cacheControl directive).isSome

end Ladybone.Http
