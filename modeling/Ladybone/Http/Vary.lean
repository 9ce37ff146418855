import Ladybone.Http.Headers

/-!
# Vary keys

`create_vary_key` hashes the values a request has for the header names that the response
nominates. The hash is a parameter. Results are `none` where the code has none to give: a wildcard
stops the process, and for a `Vary` field without any name `for_each_vary_header` reads a decision
that was never made.
-/

namespace Ladybone.Http

open Cookies (Text ascii)
open Option

structure Hashing (Key : Type) where
  digest : Text → Key
  zero : Key

def varyName : Text := ascii ['V', 'a', 'r', 'y']

def wildcard : Text := ascii ['*']

/-- The names `for_each_vary_header` visits, field by field. -/
def varyFields (response : HeaderList) : List (List Text) :=
  (response.values varyName).map fun value => (splitView comma value).map normalizeHeaderValue

/-- The search of `is_cacheable` for a wildcard, which ends at the first one. -/
def containsVaryWildcard : List (List Text) → Option Bool
  | [] => some false
  | names :: rest =>
    if names = [] then none
    else if wildcard ∈ names then some true
    else containsVaryWildcard rest

def varyNames (response : HeaderList) : Option (List Text) :=
  if (varyFields response).all fun names => names ≠ [] && wildcard ∉ names then
    some (varyFields response).flatten
  else none

/-! ## Normalized values -/

/-- The headers whose values are lists in no particular order. -/
def unorderedNames : List Text :=
  [ascii ['A', 'c', 'c', 'e', 'p', 't'],
    ascii ['A', 'c', 'c', 'e', 'p', 't', '-', 'E', 'n', 'c', 'o', 'd', 'i', 'n', 'g'],
    ascii ['A', 'c', 'c', 'e', 'p', 't', '-', 'L', 'a', 'n', 'g', 'u', 'a', 'g', 'e']]

def listedValues (value : Text) : List Text :=
  if comma ∈ lowercase value then (splitView comma (lowercase value)).map normalizeHeaderValue
  else [lowercase value]

def normalizeRequestVaryHeaderValues (header : Text) (request : HeaderList) : Text :=
  if isOneOfIgnoringAsciiCase header unorderedNames then List.intercalate [newline]
      (((request.values header).flatMap listedValues).insertionSort (· ≤ ·))
  else (request.values header).flatMap (· ++ [newline])

/-- What the hash is fed with: the values one after the other. -/
def varyInput (request : HeaderList) (names : List Text) : Text :=
  names.flatMap fun name => normalizeRequestVaryHeaderValues name request

variable {Key : Type} {names : List Text}

def createVaryKey (hashing : Hashing Key) (request response : HeaderList) : Option Key :=
  (varyNames response).map fun names =>
    if names = [] then hashing.zero else hashing.digest (varyInput request names)

def createCacheKey (hashing : Hashing Key) (url method : Text) (extra : Option Text) : Key :=
  hashing.digest (url ++ method ++ extra.getD [])

/-! ## When equal keys mean equal values -/

def AgreeOn (names : List Text) (request other : HeaderList) : Prop :=
  ∀ name ∈ names, normalizeRequestVaryHeaderValues name request =
    normalizeRequestVaryHeaderValues name other

def SameLengths (names : List Text) (request other : HeaderList) : Prop :=
  ∀ name ∈ names, (normalizeRequestVaryHeaderValues name request).length =
    (normalizeRequestVaryHeaderValues name other).length

theorem agree_on_of_same_lengths {req other : HeaderList}
    (sameInput : varyInput req names = varyInput other names)
    (sameLengths : SameLengths names req other) : AgreeOn names req other := by
  induction names with
  | nil =>
    intro name mem
    cases mem
  | cons first _ ih =>
    have firstLength := sameLengths first List.mem_cons_self
    obtain ⟨sameFirst, sameRest⟩ := List.append_inj sameInput firstLength
    have restAgrees := ih sameRest fun name mem =>
      sameLengths name (List.mem_cons_of_mem _ mem)
    exact List.forall_mem_cons.mpr ⟨sameFirst, restAgrees⟩

theorem agree_on_iff_same_lengths {hashing : Hashing Key}
    (injective : Function.Injective hashing.digest)
    {req other response stored : HeaderList} {key : Key}
    (nominated : varyNames response = some names) (kept : varyNames stored = some names)
    (first : createVaryKey hashing req response = some key)
    (second : createVaryKey hashing other stored = some key) :
    AgreeOn names req other ↔ SameLengths names req other := by
  refine ⟨fun agree name mem => congrArg _ (agree name mem), fun sameLengths => ?_⟩
  unfold createVaryKey at first second
  rw [nominated, map_some, some.injEq] at first
  rw [kept, map_some, some.injEq] at second
  by_cases unvaried : names = []
  · intro name mem
    rw [unvaried] at mem
    cases mem
  · rw [if_neg unvaried] at first second
    exact agree_on_of_same_lengths (injective (first.trans second.symm)) sameLengths

end Ladybone.Http
