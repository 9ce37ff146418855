import Ladybone.Cookies.Matching
import Ladybone.Support.Checks
import Ladybone.Support.Table

/-!
# The cookie jar

`CookieJar::set_cookie` over the transient storage. A cookie that one of the numbered steps
ignores leaves the jar as it is; the process stops where a default path is no UTF-8.
-/

namespace Ladybone.Cookies

open Support Support.Checks

abbrev Time := Int

inductive SameSite where
  | default
  | none
  | strict
  | lax
deriving DecidableEq

inductive Source where
  | nonHttp
  | http
deriving DecidableEq

structure Cookie where
  (name value : Text)
  sameSite : SameSite := .default
  creationTime : Time := 0
  lastAccessTime : Time := 0
  expiryTime : Time := 0
  domain : Text := []
  path : Text := []
  secure : Bool := false
  httpOnly : Bool := false
  hostOnly : Bool := false
  persistent : Bool := false
deriving DecidableEq

structure ParsedCookie where
  (name value : Text)
  sameSiteAttribute : SameSite := .default
  expiryTimeFromExpiresAttribute : Option Time := none
  expiryTimeFromMaxAgeAttribute : Option Time := none
  domain : Option Text := none
  path : Option Text := none
  secureAttributePresent : Bool := false
  httpOnlyAttributePresent : Bool := false

structure CookieStorageKey where
  (name domain path : Text)
deriving DecidableEq

def Cookie.key (cookie : Cookie) : CookieStorageKey := ⟨cookie.name, cookie.domain, cookie.path⟩

/-- Every cookie is stored under its own name, domain and path. -/
structure Jar where
  cookies : Table CookieStorageKey Cookie
  keyed : ∀ entry ∈ cookies.entries, entry.1 = entry.2.key

def Jar.empty : Jar := ⟨.empty, fun _ member => nomatch member⟩

/-- A call of `set_cookie`, with what the clock says when the cookie is created, stored and when
the expired ones are purged. -/
structure Call where
  url : Url
  parsed : ParsedCookie
  source : Source
  (createdAt storedAt purgedAt : Time)

inductive Rejection where
  | ignored
  | aborted
deriving DecidableEq

/-- Midnight of the first of January 3000, in nanoseconds. -/
def latestDate : Time := 32503680000000000000

def secureName : Text := ascii ['_', '_', 'S', 'e', 'c', 'u', 'r', 'e', '-']

def hostName : Text := ascii ['_', '_', 'H', 'o', 's', 't', '-']

section
variable (platform : Platform) (jar : Jar) (call : Call)

def checkNameAndValue : Except Rejection Unit := do
  ensure (!(call.parsed.name.isEmpty && call.parsed.value.isEmpty)) .ignored
  ensure (!containsInvalidControlCharacter call.parsed.name) .ignored
  ensure (!containsInvalidControlCharacter call.parsed.value) .ignored
  ensure (call.parsed.name.length + call.parsed.value.length ≤ 4096) .ignored

/-- Step 6: the expiry time, and whether the cookie is persistent. -/
def expiry : Time × Bool :=
  match call.parsed.expiryTimeFromMaxAgeAttribute, call.parsed.expiryTimeFromExpiresAttribute with
  | some time, _ => (time, true)
  | none, some time => (time, true)
  | none, none => (latestDate, false)

def domainAttribute : Text :=
  match call.parsed.domain with
  | some domain => if domain.length ≤ 1024 then domain else []
  | none => []

/-- Step 9: a public suffix is only good for the host of that name, and then for it alone. -/
def checkPublicSuffix (requestHost domain : Text) : Except Rejection Text :=
  if platform.isPublicSuffix domain then
    if domain = requestHost then .ok [] else .error .ignored
  else .ok domain

/-- Steps 8 to 10: the domain, and whether the cookie is for this host only. -/
def cookieDomain : Except Rejection (Text × Bool) := do
  ensure ((domainAttribute call).all (· < 0x80)) .ignored
  let requestHost ← present .ignored (canonicalizeDomain call.url)
  let domain ← checkPublicSuffix platform requestHost (domainAttribute call)
  match domain with
  | [] => .ok (requestHost, true)
  | _ => do
      ensure (domainMatches platform requestHost domain) .ignored
      .ok (domain, false)

def cookiePath : Except Rejection Text :=
  match call.parsed.path with
  | some path => .ok (if path.length ≤ 1024 then path else [])
  | none => present .aborted (defaultPath platform call.url)

/-- Step 16: a secure cookie the new one would cover. -/
def coversSecure (cookie old : Cookie) : Bool :=
  old.name == cookie.name && old.secure &&
    (domainMatches platform old.domain cookie.domain ||
      domainMatches platform cookie.domain old.domain) &&
    pathMatches cookie.path old.path

def checkSecurity (cookie : Cookie) : Except Rejection Unit := do
  ensure (!(cookie.secure && !call.url.isHttps)) .ignored
  ensure (!(call.source == .nonHttp && cookie.httpOnly)) .ignored
  ensure (!(!cookie.secure && !call.url.isHttps &&
    jar.cookies.entries.any fun entry => coversSecure platform cookie entry.2)) .ignored

def checkPrefixes (cookie : Cookie) : Except Rejection Unit := do
  ensure (!(cookie.sameSite == .none && !cookie.secure)) .ignored
  ensure (!(hasCaseInsensitivePrefix cookie.name secureName && !cookie.secure)) .ignored
  ensure (!(hasCaseInsensitivePrefix cookie.name hostName &&
    (!cookie.secure || !cookie.hostOnly ||
      (call.parsed.path.isSome && call.parsed.path != some [slash])))) .ignored
  ensure (!(cookie.name.isEmpty &&
    (hasCaseInsensitivePrefix cookie.value secureName ||
      hasCaseInsensitivePrefix cookie.value hostName))) .ignored

/-- Steps 2 to 22: the cookie to be stored. -/
def newCookie : Except Rejection Cookie := do
  checkNameAndValue call
  let (domain, hostOnly) ← cookieDomain platform call
  let path ← cookiePath platform call
  let cookie : Cookie :=
    { name := call.parsed.name
      value := call.parsed.value
      sameSite := call.parsed.sameSiteAttribute
      creationTime := call.createdAt
      lastAccessTime := call.createdAt
      expiryTime := (expiry call).1
      domain
      path
      secure := call.parsed.secureAttributePresent
      httpOnly := call.parsed.httpOnlyAttributePresent
      hostOnly
      persistent := (expiry call).2 }
  checkSecurity platform jar call cookie
  checkPrefixes call cookie
  return cookie

end

/-! ## The storage -/

theorem Jar.key_of_get {jar : Jar} {key : CookieStorageKey} {cookie : Cookie}
    (found : jar.cookies.get key = some cookie) : key = cookie.key :=
  jar.keyed _ (Table.get_eq_some_iff.mp found)

def Jar.insert (jar : Jar) (cookie : Cookie) : Jar where
  cookies := jar.cookies.set cookie.key cookie
  keyed := by
    rintro ⟨key, stored⟩ member
    have found := Table.get_eq_some_iff.mpr member
    by_cases same : key = cookie.key
    · rw [same, Table.get_set_self, Option.some.injEq] at found
      rw [← found]
      exact same
    · rw [Table.get_set_of_ne same] at found
      exact jar.key_of_get found

def Jar.store (jar : Jar) (now : Time) (cookie : Cookie) : Jar :=
  if cookie.expiryTime < now ∧ jar.cookies.get cookie.key = none then jar else jar.insert cookie

def Jar.purge (jar : Jar) (now : Time) : Jar where
  cookies := jar.cookies.discard fun _ cookie => decide (cookie.expiryTime < now)
  keyed := by
    intro entry member
    exact jar.keyed entry (List.mem_of_mem_filter member)

/-- Step 23: what becomes of the new cookie beside one with the same key, or nothing if it is
ignored. -/
def mergeWithOld (source : Source) (old : Option Cookie) (cookie : Cookie) : Option Cookie :=
  match old with
  | some old =>
    if old.hostOnly = cookie.hostOnly then
      if source = .nonHttp ∧ old.httpOnly then none
      else some { cookie with creationTime := old.creationTime }
    else some cookie
  | none => some cookie

def setCookie (platform : Platform) (jar : Jar) (call : Call) : Option Jar :=
  match newCookie platform jar call with
  | .error .aborted => none
  | .error .ignored => some jar
  | .ok cookie =>
    match mergeWithOld call.source (jar.cookies.get cookie.key) cookie with
    | none => some jar
    | some merged => some ((jar.store call.storedAt merged).purge call.purgedAt)

end Ladybone.Cookies
