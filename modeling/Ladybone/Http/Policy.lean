import Mathlib.Algebra.Group.Int.Defs
import Ladybone.Http.Vary

/-!
# Which responses may be stored, and for how long

`is_cacheable` for requests and responses, the fields that are stored, and the lifetime of a
response. Durations are nanoseconds and stay within the bounds of `AK::Duration`. How dates and
numbers are read is a parameter.
-/

namespace Ladybone.Http

open HeaderList
open Cookies (Text ascii)
open List

abbrev Time := Int

/-! ## Storing -/

def cacheControlName : Text :=
  ascii ['C', 'a', 'c', 'h', 'e', '-', 'C', 'o', 'n', 't', 'r', 'o', 'l']

def noStore : Text := ascii ['n', 'o', '-', 's', 't', 'o', 'r', 'e']

def maxAge : Text := ascii ['m', 'a', 'x', '-', 'a', 'g', 'e']

def public_ : Text := ascii ['p', 'u', 'b', 'l', 'i', 'c']

def expiresName : Text := ascii ['E', 'x', 'p', 'i', 'r', 'e', 's']

def isCacheableRequest (method : Text) (request : HeaderList) : Bool :=
  if method ≠ ascii ['G', 'E', 'T'] ∧ method ≠ ascii ['H', 'E', 'A', 'D'] then false
  else if (request.get cacheControlName).any (containsIgnoringAsciiCase · noStore) then false
  else !request.contains (ascii ['R', 'a', 'n', 'g', 'e'])

def isHeuristicallyCacheableStatus (status : Nat) : Bool :=
  [200, 203, 204, 206, 300, 301, 308, 404, 405, 410, 414, 501].contains status

def hasDirective (cacheControl : Option Text) (directive : Text) : Bool :=
  cacheControl.any (containsCacheControlDirective · directive)

/-- `is_cacheable` of a response, behind the search for a wildcard -/
def directivesPermitStorage (status : Nat) (response : HeaderList) : Bool :=
  let cacheControl := response.get cacheControlName
  let mustUnderstand :=
    ascii ['m', 'u', 's', 't', '-', 'u', 'n', 'd', 'e', 'r', 's', 't', 'a', 'n', 'd']
  let understood :=
    if hasDirective cacheControl mustUnderstand then
      isHeuristicallyCacheableStatus status || status == 304
    else !hasDirective cacheControl noStore
  understood &&
    (hasDirective cacheControl public_ ||
      hasDirective cacheControl (ascii ['p', 'r', 'i', 'v', 'a', 't', 'e']) ||
      response.contains expiresName || hasDirective cacheControl maxAge ||
      isHeuristicallyCacheableStatus status)

def isCacheableResponse (status : Nat) (response : HeaderList) : Option Bool :=
  if status < 200 then some false
  else if status = 206 then some false
  else
    match containsVaryWildcard (varyFields response) with
    | some true => some false
    | some false => some (directivesPermitStorage status response)
    | none => none

def exemptedNames : List Text :=
  [ascii ['C', 'o', 'n', 'n', 'e', 'c', 't', 'i', 'o', 'n'],
    ascii ['K', 'e', 'e', 'p', '-', 'A', 'l', 'i', 'v', 'e'],
    ascii ['P', 'r', 'o', 'x', 'y', '-', 'C', 'o', 'n', 'n', 'e', 'c', 't', 'i', 'o', 'n'],
    ascii ['T', 'E'],
    ascii ['T', 'r', 'a', 'n', 's', 'f', 'e', 'r', '-', 'E', 'n', 'c', 'o', 'd', 'i', 'n', 'g'],
    ascii ['U', 'p', 'g', 'r', 'a', 'd', 'e'],
    ascii ['X', '-', 'L', 'a', 'd', 'y', 'b', 'i', 'r', 'd', '-', 'E', 'n', 'a', 'b', 'l', 'e', '-',
      'D', 'i', 's', 'k', '-', 'C', 'a', 'c', 'h', 'e'],
    ascii ['X', '-', 'L', 'a', 'd', 'y', 'b', 'i', 'r', 'd', '-', 'D', 'i', 's', 'k', '-', 'C', 'a',
      'c', 'h', 'e', '-', 'S', 't', 'a', 't', 'u', 's'],
    ascii ['X', '-', 'L', 'a', 'd', 'y', 'b', 'i', 'r', 'd', '-', 'R', 'e', 'q', 'u', 'e', 's', 't',
      '-', 'T', 'i', 'm', 'e', '-', 'O', 'f', 'f', 's', 'e', 't']]

def isHeaderExemptedFromStorage (name : Text) : Bool := isOneOfIgnoringAsciiCase name exemptedNames

def storeHeader (stored : HeaderList) (header : Header) : HeaderList :=
  if isHeaderExemptedFromStorage header.name then stored else stored.append header

/-- `store_header_and_trailer_fields` into an empty list -/
def storedFields (list : HeaderList) : HeaderList := list.headers.foldl storeHeader ⟨[]⟩

theorem not_exempted_of_is_named_vary {hdr : Header} (isVary : Header.isNamed varyName hdr = true) :
    isHeaderExemptedFromStorage hdr.name = false := by
  have same := equals_ignoring_ascii_case_iff.mp isVary
  unfold isHeaderExemptedFromStorage isOneOfIgnoringAsciiCase equalsIgnoringAsciiCase
  rw [same]
  decide

theorem values_foldl_store_header (headers : List Header) (stored : HeaderList) :
    (headers.foldl storeHeader stored).values varyName =
      stored.values varyName ++ (HeaderList.mk headers).values varyName := by
  induction headers generalizing stored with
  | nil => exact (append_nil _).symm
  | cons hdr rest ih =>
    rw [foldl_cons, ih]
    have split : (mk (hdr :: rest)).values varyName =
        (mk [hdr]).values varyName ++ (mk rest).values varyName := by
      unfold values
      rw [← map_append, ← filter_append, singleton_append]
    rw [split, ← append_assoc]
    congr 1
    unfold storeHeader
    split_ifs with exempted
    · -- an exempted header is not `Vary`
      have notVary : Header.isNamed varyName hdr = false := by
        by_contra isVary
        rw [not_exempted_of_is_named_vary (Bool.not_eq_false _ ▸ isVary)] at exempted
        cases exempted
      simp [values, notVary]
    · exact values_append

theorem vary_names_stored (response : HeaderList) :
    varyNames (storedFields response) = varyNames response := by
  have sameValues : (storedFields response).values varyName = response.values varyName := by
    unfold storedFields
    rw [values_foldl_store_header]
    rfl
  unfold varyNames varyFields
  rw [sameValues]

/-! ## Lifetimes -/

def saturate (nanoseconds : Int) : Int :=
  max (-9223372036854775808 * 1000000000)
    (min nanoseconds (9223372036854775807 * 1000000000 + 999999999))

def secondsToDuration (seconds : Int) : Int := seconds * 1000000000

def longestDuration : Int := saturate (2 ^ 64 * 1000000000)

/-- `Duration::to_seconds`: away from zero if positive -/
def toSeconds (duration : Int) : Int :=
  if 0 ≤ duration then min ((duration + 999999999) / 1000000000) 9223372036854775807
  else duration / 1000000000

structure Readers where
  parseHttpDate : Text → Option Time
  /-- `to_number<i64>` -/
  parseI64 : Text → Option Int

inductive CacheLifetimeStatus where
  | fresh
  | expired
  | mustRevalidate
  | staleWhileRevalidate
deriving DecidableEq

section
variable (readers : Readers) (now : Time)

def Readers.date (list : HeaderList) (name : Text) : Option Time :=
  (list.get name).bind readers.parseHttpDate

def extractCacheControlDurationDirective (cacheControl directive : Text)
    (valuelessFallback : Option Int) : Option Int :=
  match extractCacheControlDirective cacheControl directive with
  | some [] => valuelessFallback
  | some value => (readers.parseI64 value).map secondsToDuration
  | none => none

def durationDirective (cacheControl : Option Text) (directive : Text)
    (valuelessFallback : Option Int) : Option Int :=
  cacheControl.bind fun value =>
    extractCacheControlDurationDirective readers value directive valuelessFallback

def calculateHeuristicFreshnessLifetime (response : HeaderList) : Int :=
  let lastModified := ascii ['L', 'a', 's', 't', '-', 'M', 'o', 'd', 'i', 'f', 'i', 'e', 'd']
  match readers.date response lastModified with
  | none => 0
  | some time =>
    let seconds := toSeconds (saturate (now - time))
    if seconds ≤ 0 then 0 else secondsToDuration (max 0 (seconds / 10))

def dateName : Text := ascii ['D', 'a', 't', 'e']

def calculateFreshnessLifetime (status : Nat) (response : HeaderList) : Int :=
  let cacheControl := response.get cacheControlName
  match durationDirective readers cacheControl maxAge none with
  | some age => age
  | none =>
    match readers.date response expiresName with
    | some expires => saturate (expires - (readers.date response dateName).getD now)
    | none =>
      if isHeuristicallyCacheableStatus status || hasDirective cacheControl public_ then
        calculateHeuristicFreshnessLifetime readers now response
      else 0

def calculateAge (response : HeaderList) (requestTime responseTime : Time) : Int :=
  let ageValue :=
    match (response.get (ascii ['A', 'g', 'e'])).bind readers.parseI64 with
    | some seconds => secondsToDuration seconds
    | none => 0
  let dateValue := (readers.date response dateName).getD now
  let apparentAge := max 0 (saturate (responseTime - dateValue))
  let correctedAgeValue := saturate (ageValue + saturate (responseTime - requestTime))
  saturate (max apparentAge correctedAgeValue + saturate (now - responseTime))

def calculateStaleWhileRevalidateLifetime (response : HeaderList) (lifetime : Int) : Int :=
  let directive := ascii ['s', 't', 'a', 'l', 'e', '-', 'w', 'h', 'i', 'l', 'e', '-', 'r', 'e', 'v',
    'a', 'l', 'i', 'd', 'a', 't', 'e']
  match durationDirective readers (response.get cacheControlName) directive none with
  | some extra => saturate (lifetime + extra)
  | none => 0

def revalidationStatus (response : HeaderList) (status : CacheLifetimeStatus) :
    CacheLifetimeStatus :=
  if response.contains (ascii ['L', 'a', 's', 't', '-', 'M', 'o', 'd', 'i', 'f', 'i', 'e', 'd']) ||
      response.contains (ascii ['E', 'T', 'a', 'g']) then status
  else .expired

/-- What the directives of a request say about a response before its lifetime is compared. -/
def requestForbids (request : HeaderList) (lifetime age : Int) : Bool :=
  let cacheControl := request.get cacheControlName
  (durationDirective readers cacheControl maxAge none).any (fun limit => limit ≤ age) ||
    (durationDirective readers cacheControl
      (ascii ['m', 'i', 'n', '-', 'f', 'r', 'e', 's', 'h']) none).any
      fun extra => lifetime < saturate (age + extra)

def cacheLifetimeStatus (request response : HeaderList) (lifetime age : Int) :
    CacheLifetimeStatus :=
  let requestControl := request.get cacheControlName
  let responseControl := response.get cacheControlName
  let noCache := ascii ['n', 'o', '-', 'c', 'a', 'c', 'h', 'e']
  let maxStale := ascii ['m', 'a', 'x', '-', 's', 't', 'a', 'l', 'e']
  let mustRevalidate :=
    ascii ['m', 'u', 's', 't', '-', 'r', 'e', 'v', 'a', 'l', 'i', 'd', 'a', 't', 'e']
  if hasDirective responseControl noCache then revalidationStatus response .mustRevalidate
  else if requestControl.any (containsIgnoringAsciiCase · noCache) then
    revalidationStatus response .mustRevalidate
  else if requestForbids readers request lifetime age then .expired
  else if age < lifetime then .fresh
  else if (durationDirective readers requestControl maxStale (some longestDuration)).any
      fun extra => age < saturate (lifetime + extra) then .fresh
  else if responseControl = none then revalidationStatus response .mustRevalidate
  else if age < calculateStaleWhileRevalidateLifetime readers response lifetime then
    revalidationStatus response .staleWhileRevalidate
  else if hasDirective responseControl mustRevalidate then
    revalidationStatus response .mustRevalidate
  else .expired

end
end Ladybone.Http
