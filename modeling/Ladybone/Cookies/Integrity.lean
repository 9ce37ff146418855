import Ladybone.Cookies.Jar
import Ladybone.Support.Runs

/-!
# What scripts and insecure sites cannot do to the jar

What a call of `set_cookie` that stores a cookie has checked, and what follows for the cookies
already there: which calls keep HttpOnly cookies from scripts, that insecure sites leave secure
cookies alone, and which of the promises of the name prefixes the jar keeps.
-/

namespace Ladybone.Cookies

open Support Support.Checks Support.Runs

/-! ## Accepted cookies -/

structure Made (platform : Platform) (jar : Jar) (call : Call) (cookie : Cookie) : Prop where
  name : cookie.name = call.parsed.name
  domain : cookie.hostOnly = false → platform.isPublicSuffix cookie.domain = false
  path : call.parsed.path = none → defaultPath platform call.url = some cookie.path
  given_path : call.parsed.path = some [slash] → cookie.path = [slash]
  https : cookie.secure = true → call.url.isHttps = true
  script : call.source = .nonHttp → cookie.httpOnly = false
  uncovered : cookie.secure = false → call.url.isHttps = false →
    ∀ entry ∈ jar.cookies.entries, coversSecure platform cookie entry.2 = false
  secure_prefix : hasCaseInsensitivePrefix cookie.name secureName = true → cookie.secure = true
  host_prefix : hasCaseInsensitivePrefix cookie.name hostName = true →
    cookie.secure = true ∧ cookie.hostOnly = true ∧
      (call.parsed.path = none ∨ call.parsed.path = some [slash])
  nameless : cookie.name = [] → hasCaseInsensitivePrefix cookie.value secureName = false ∧
    hasCaseInsensitivePrefix cookie.value hostName = false

variable {host : Platform} {call : Call} {jar : Jar} {cookie : Cookie} {now : Time}
  {key : CookieStorageKey}

theorem cookie_domain_spec {domain : Text} {hostOnly : Bool}
    (done : cookieDomain host call = .ok (domain, hostOnly)) :
    hostOnly = false → host.isPublicSuffix domain = false := by
  obtain ⟨-, done⟩ := check_bind_eq_ok.mp done
  obtain ⟨requestHost, -, done⟩ := bind_eq_ok.mp done
  obtain ⟨checked, passed, done⟩ := bind_eq_ok.mp done
  unfold checkPublicSuffix at passed
  cases checked with
  | nil =>
    cases done
    intro shared
    cases shared
  | cons =>
    obtain ⟨-, done⟩ := check_bind_eq_ok.mp done
    cases done
    intro _
    split_ifs at passed with isSuffix isHost
    · cases passed
    · rw [Except.ok.injEq] at passed
      rw [← passed]
      exact eq_false_of_ne_true isSuffix

theorem cookie_path_spec {path : Text} (done : cookiePath host call = .ok path) :
    (call.parsed.path = none → defaultPath host call.url = some path) ∧
      (call.parsed.path = some [slash] → path = [slash]) := by
  unfold cookiePath at done
  cases given : call.parsed.path with
  | none =>
    rw [given] at done
    refine ⟨fun _ => present_eq_ok.mp done, fun isRoot => ?_⟩
    cases isRoot
  | some =>
    rw [given] at done
    refine ⟨fun absent => ?_, fun isRoot => ?_⟩
    · cases absent
    · cases isRoot
      cases done
      rfl

theorem check_security_spec (done : checkSecurity host jar call cookie = .ok ()) :
    (cookie.secure = true → call.url.isHttps = true) ∧
      (call.source = .nonHttp → cookie.httpOnly = false) ∧
      (cookie.secure = false → call.url.isHttps = false →
        ∀ entry ∈ jar.cookies.entries, coversSecure host cookie entry.2 = false) := by
  simp only [checkSecurity, check_bind_eq_ok, ensure_eq_ok] at done
  obtain ⟨https, script, uncovered⟩ := done
  refine ⟨?_, ?_, ?_⟩
  · intro isSecure
    simpa [isSecure] using https
  · intro isScript
    simpa [isScript] using script
  · intro notSecure notHttps
    rw [notSecure, notHttps] at uncovered
    intro entry mem
    have none : (jar.cookies.entries.any fun entry => coversSecure host cookie entry.2) =
        false := by simpa using uncovered
    exact eq_false_of_ne_true (List.any_eq_false.mp none entry mem)

theorem check_prefixes_spec (done : checkPrefixes call cookie = .ok ()) :
    (hasCaseInsensitivePrefix cookie.name secureName = true → cookie.secure = true) ∧
      (hasCaseInsensitivePrefix cookie.name hostName = true →
        cookie.secure = true ∧ cookie.hostOnly = true ∧
          (call.parsed.path = none ∨ call.parsed.path = some [slash])) ∧
      (cookie.name = [] → hasCaseInsensitivePrefix cookie.value secureName = false ∧
        hasCaseInsensitivePrefix cookie.value hostName = false) := by
  simp only [checkPrefixes, check_bind_eq_ok, ensure_eq_ok] at done
  obtain ⟨-, securePrefix, hostPrefix, nameless⟩ := done
  refine ⟨?_, ?_, ?_⟩
  · intro begins
    simpa [begins] using securePrefix
  · intro begins
    simp only [begins, Bool.true_and, Bool.not_eq_true', Bool.or_eq_false_iff,
      Bool.not_eq_false'] at hostPrefix
    obtain ⟨⟨isSecure, isHostOnly⟩, path⟩ := hostPrefix
    refine ⟨isSecure, isHostOnly, ?_⟩
    cases given : call.parsed.path with
    | none => exact .inl rfl
    | some =>
      rw [given, Option.isSome_some, Bool.true_and, bne_eq_false_iff_eq] at path
      exact .inr path
  · intro empty
    simpa [empty] using nameless

theorem new_cookie_made (done : newCookie host jar call = .ok cookie) :
    Made host jar call cookie := by
  obtain ⟨-, done⟩ := check_bind_eq_ok.mp done
  obtain ⟨⟨domain, hostOnly⟩, domainDone, done⟩ := bind_eq_ok.mp done
  obtain ⟨path, pathDone, done⟩ := bind_eq_ok.mp done
  obtain ⟨secured, done⟩ := check_bind_eq_ok.mp done
  obtain ⟨prefixed, done⟩ := check_bind_eq_ok.mp done
  cases done
  obtain ⟨https, script, uncovered⟩ := check_security_spec secured
  obtain ⟨securePrefix, hostPrefix, nameless⟩ := check_prefixes_spec prefixed
  obtain ⟨pathDefault, pathGiven⟩ := cookie_path_spec pathDone
  exact ⟨rfl, cookie_domain_spec domainDone, pathDefault, pathGiven, https, script, uncovered,
    securePrefix, hostPrefix, nameless⟩

/-! ## The storage -/

theorem store_get_of_ne (differs : key ≠ cookie.key) :
    (jar.store now cookie).cookies.get key = jar.cookies.get key := by
  unfold Jar.store
  split_ifs with skipped
  · rfl
  · exact Table.get_set_of_ne differs

theorem store_get_cases {stored : Cookie}
    (found : (jar.store now cookie).cookies.get key = some stored) :
    jar.cookies.get key = some stored ∨ stored = cookie := by
  unfold Jar.store at found
  split_ifs at found with skipped
  · exact .inl found
  · by_cases same : key = cookie.key
    · subst same
      exact .inr (Option.some.inj (Table.get_set_self.symm.trans found)).symm
    · exact .inl ((Table.get_set_of_ne same).symm.trans found)

theorem purge_get_iff :
    (jar.purge now).cookies.get key = some cookie ↔
      jar.cookies.get key = some cookie ∧ now ≤ cookie.expiryTime := by
  unfold Jar.purge
  rw [Table.get_discard_eq_some_iff, decide_eq_false_iff_not, Int.not_lt]

/-- Step 23 changes nothing but the creation time, and lets no script replace an HttpOnly cookie
it recognises. -/
theorem merge_with_old_spec {source : Source} {old : Option Cookie} {merged : Cookie}
    (done : mergeWithOld source old cookie = some merged) :
    (∃ time, merged = { cookie with creationTime := time }) ∧
      ∀ other, old = some other → other.hostOnly = cookie.hostOnly →
        source = .nonHttp → other.httpOnly = false := by
  unfold mergeWithOld at done
  cases old with
  | none =>
    cases done
    refine ⟨⟨cookie.creationTime, rfl⟩, fun other absent => ?_⟩
    cases absent
  | some old =>
    dsimp only at done
    split_ifs at done with sameHost protected_
    · cases done
      refine ⟨⟨old.creationTime, rfl⟩, fun other same _ isScript => ?_⟩
      cases same
      exact eq_false_of_ne_true fun isHttpOnly => protected_ ⟨isScript, isHttpOnly⟩
    · cases done
      refine ⟨⟨cookie.creationTime, rfl⟩, fun other same isHost => ?_⟩
      cases same
      exact absurd isHost sameHost

variable {after : Jar} (done : setCookie host jar call = some after)

include done in
theorem set_cookie_cases :
    after = jar ∨ ∃ cookie merged, newCookie host jar call = .ok cookie ∧
      mergeWithOld call.source (jar.cookies.get cookie.key) cookie = some merged ∧
      after = (jar.store call.storedAt merged).purge call.purgedAt := by
  unfold setCookie at done
  split at done
  · cases done
  · cases done
    exact .inl rfl
  · rename_i cookie made
    split at done
    · cases done
      exact .inl rfl
    · rename_i merged isMerged
      cases done
      exact .inr ⟨cookie, merged, made, isMerged, rfl⟩

/-! ## Scripts and HttpOnly cookies -/

def KeepsHttpOnly (jar : Jar) (now : Time) (after : Jar) : Prop :=
  ∀ key cookie, jar.cookies.get key = some cookie → cookie.httpOnly = true →
    now ≤ cookie.expiryTime → after.cookies.get key = some cookie

/-- An HttpOnly cookie under the key of the new cookie agrees with it on whether it is for the
host only. -/
def HostOnlyAgrees (platform : Platform) (jar : Jar) (call : Call) : Prop :=
  ∀ cookie old, newCookie platform jar call = .ok cookie →
    jar.cookies.get cookie.key = some old → old.httpOnly = true →
      call.purgedAt ≤ old.expiryTime → old.hostOnly = cookie.hostOnly

section

include done

theorem kept_from_script (isScript : call.source = .nonHttp)
    (agrees : HostOnlyAgrees host jar call) :
    KeepsHttpOnly jar call.purgedAt after := by
  intro key old found isHttpOnly notExpired
  rcases set_cookie_cases done with rfl | ⟨cookie, merged, made, isMerged, rfl⟩
  · exact found
  · obtain ⟨⟨time, rfl⟩, unprotected⟩ := merge_with_old_spec isMerged
    rw [purge_get_iff]
    refine ⟨?_, notExpired⟩
    by_cases same : key = cookie.key
    · subst same
      have sameHost := agrees cookie old made found isHttpOnly notExpired
      rw [unprotected old found sameHost isScript] at isHttpOnly
      cases isHttpOnly
    · have differs : key ≠ Cookie.key { cookie with creationTime := time } := same
      exact (store_get_of_ne differs).trans found

theorem host_only_agrees_of_kept (keeps : KeepsHttpOnly jar call.purgedAt after) :
    HostOnlyAgrees host jar call := by
  intro cookie old made found isHttpOnly notExpired
  have kept := keeps _ old found isHttpOnly notExpired
  by_contra differs
  -- the check for HttpOnly is skipped, and the new cookie takes the place of the old one
  have isMerged : mergeWithOld call.source (jar.cookies.get cookie.key) cookie = some cookie := by
    rw [found]
    exact if_neg differs
  unfold setCookie at done
  rw [made] at done
  dsimp only at done
  rw [isMerged] at done
  cases done
  rw [purge_get_iff, Jar.store, found, if_neg (by simp), Jar.insert, Table.get_set_self,
    Option.some.injEq] at kept
  exact differs (congrArg Cookie.hostOnly kept.1).symm

end

/-- Scripts leave the HttpOnly cookies alone in exactly the calls in which a cookie under the
same key is for the host only in both or in neither, and so in every run of such calls. -/
theorem http_only_kept_from_scripts (platform : Platform) (jar : Jar) :
    (∀ call after, call.source = .nonHttp → setCookie platform jar call = some after →
      (KeepsHttpOnly jar call.purgedAt after ↔ HostOnlyAgrees platform jar call)) ∧
    (∀ key cookie after, jar.cookies.get key = some cookie → cookie.httpOnly = true →
      Execution (setCookie platform)
        (fun jar call => call.source = .nonHttp ∧ call.purgedAt ≤ cookie.expiryTime ∧
          HostOnlyAgrees platform jar call) jar after →
      after.cookies.get key = some cookie) := by
  refine ⟨?_, ?_⟩
  · intro call after isScript done
    exact ⟨host_only_agrees_of_kept done, kept_from_script done isScript⟩
  · intro key cookie after found isHttpOnly run
    refine run.invariant (fun jar => jar.cookies.get key = some cookie) found ?_
    rintro jar call next found ⟨isScript, notExpired, agrees⟩ done
    exact kept_from_script done isScript agrees key cookie found isHttpOnly notExpired

/-! ## Secure cookies and name prefixes -/

def KeepsSecure (jar : Jar) (now : Time) (after : Jar) : Prop :=
  ∀ key cookie, jar.cookies.get key = some cookie → cookie.secure = true →
    now ≤ cookie.expiryTime → after.cookies.get key = some cookie

structure Sane (platform : Platform) (cookie : Cookie) : Prop where
  secure_prefix : hasCaseInsensitivePrefix cookie.name secureName = true → cookie.secure = true
  host_prefix : hasCaseInsensitivePrefix cookie.name hostName = true →
    cookie.secure = true ∧ cookie.hostOnly = true
  nameless : cookie.name = [] → hasCaseInsensitivePrefix cookie.value secureName = false ∧
    hasCaseInsensitivePrefix cookie.value hostName = false
  shared : cookie.hostOnly = false → platform.isPublicSuffix cookie.domain = false

def AllSane (platform : Platform) (jar : Jar) : Prop :=
  ∀ key cookie, jar.cookies.get key = some cookie → Sane platform cookie

def HostCookiesAtRoot (jar : Jar) : Prop :=
  ∀ key cookie, jar.cookies.get key = some cookie →
    hasCaseInsensitivePrefix cookie.name hostName = true → cookie.path = [slash]

/-- A `__Host-` cookie comes with a path, or from a place whose default path is the root. -/
def RootGiven (platform : Platform) (call : Call) : Prop :=
  hasCaseInsensitivePrefix call.parsed.name hostName = true → call.parsed.path = none →
    ∀ path, defaultPath platform call.url = some path → path = [slash]

section

include done

theorem kept_from_insecure (notHttps : call.url.isHttps = false) :
    KeepsSecure jar call.purgedAt after := by
  intro key old found isSecure notExpired
  rcases set_cookie_cases done with rfl | ⟨cookie, merged, accepted, isMerged, rfl⟩
  · exact found
  · have made := new_cookie_made accepted
    obtain ⟨⟨time, rfl⟩, -⟩ := merge_with_old_spec isMerged
    rw [purge_get_iff]
    refine ⟨?_, notExpired⟩
    by_cases same : key = cookie.key
    · -- a secure cookie under the key would be covered
      have notSecure : cookie.secure = false := by
        cases isSecure : cookie.secure with
        | false => rfl
        | true =>
          rw [made.https isSecure] at notHttps
          cases notHttps
      have uncovered := made.uncovered notSecure notHttps _ (Table.get_eq_some_iff.mp found)
      have keys := same.symm.trans (jar.key_of_get found)
      obtain ⟨name, domain, path⟩ := CookieStorageKey.mk.injEq .. ▸ keys
      unfold coversSecure at uncovered
      simp [isSecure, name, domain, path, domainMatches, pathMatches] at uncovered
    · have differs : key ≠ Cookie.key { cookie with creationTime := time } := same
      exact (store_get_of_ne differs).trans found

theorem sane_kept (sane : AllSane host jar) : AllSane host after := by
  rcases set_cookie_cases done with rfl | ⟨cookie, merged, accepted, isMerged, rfl⟩
  · exact sane
  · have made := new_cookie_made accepted
    obtain ⟨⟨time, rfl⟩, -⟩ := merge_with_old_spec isMerged
    intro key stored found
    rcases store_get_cases (purge_get_iff.mp found).1 with before | rfl
    · exact sane key stored before
    · exact ⟨made.secure_prefix, fun begins => ⟨(made.host_prefix begins).1,
        (made.host_prefix begins).2.1⟩, made.nameless, made.domain⟩

theorem root_kept (atRoot : HostCookiesAtRoot jar) (rootGiven : RootGiven host call) :
    HostCookiesAtRoot after := by
  rcases set_cookie_cases done with rfl | ⟨cookie, merged, accepted, isMerged, rfl⟩
  · exact atRoot
  · have made := new_cookie_made accepted
    obtain ⟨⟨time, rfl⟩, -⟩ := merge_with_old_spec isMerged
    unfold RootGiven at rootGiven
    intro key stored found begins
    rcases store_get_cases (purge_get_iff.mp found).1 with before | rfl
    · exact atRoot key stored before begins
    · rcases (made.host_prefix begins).2.2 with absent | isRoot
      · rw [← made.name] at rootGiven
        exact rootGiven begins absent _ (made.path absent)
      · exact made.given_path isRoot

end

/-- In every jar that calls lead to, the promises hold but for the path of `__Host-` cookies, and
insecure sites leave secure cookies alone; the path is the root where every call gives it. -/
theorem prefixes_and_secure_cookies_kept (platform : Platform) (jar : Jar) :
    (Execution (setCookie platform) Unrestricted .empty jar → AllSane platform jar ∧
        ∀ call after, call.url.isHttps = false → setCookie platform jar call = some after →
          KeepsSecure jar call.purgedAt after) ∧
    (Execution (setCookie platform) (fun _ call => RootGiven platform call) .empty jar →
      HostCookiesAtRoot jar) := by
  refine ⟨?_, ?_⟩
  · intro run
    refine ⟨?_, fun call after notHttps done => kept_from_insecure done notHttps⟩
    refine run.invariant (AllSane platform) ?_ ?_
    · intro key cookie found
      cases found
    · intro jar call next sane _ done
      exact sane_kept done sane
  · intro run
    refine run.invariant HostCookiesAtRoot ?_ ?_
    · intro key cookie found
      cases found
    · intro jar call next atRoot rootGiven done
      exact root_kept done atRoot rootGiven

/-! ## Two calls that break the promises -/

def plainPlatform : Platform where
  isPublicSuffix _ := false
  isIpv4Address _ := false
  isIpv6Address _ := false
  isUtf8 _ := true

def exampleHost : Text := ascii ['a', '.', 't', 'e', 's', 't']

def exampleUrl : Url where
  scheme := ascii ['h', 't', 't', 'p', 's']
  host := some exampleHost
  path := ascii ['/', 'f', 'o', 'o', '/', 'b', 'a', 'r']

/-- `Set-Cookie: s=1; Path=/; HttpOnly` -/
def sessionCall : Call where
  url := exampleUrl
  parsed :=
    { name := ascii ['s'], value := ascii ['1'], path := some [slash],
      httpOnlyAttributePresent := true }
  source := .http
  createdAt := 0
  storedAt := 0
  purgedAt := 0

/-- `document.cookie = "s=2; Path=/; Domain=a.test"` -/
def scriptCall : Call where
  url := exampleUrl
  parsed :=
    { name := ascii ['s'], value := ascii ['2'], path := some [slash], domain := some exampleHost }
  source := .nonHttp
  createdAt := 1
  storedAt := 1
  purgedAt := 1

def hostOnlyScriptCall : Call :=
  { scriptCall with parsed := { scriptCall.parsed with domain := none } }

/-- `Set-Cookie: __Host-s=1; Secure` -/
def hostCall : Call where
  url := exampleUrl
  parsed :=
    { name := hostName ++ ascii ['s'], value := ascii ['1'], secureAttributePresent := true }
  source := .http
  createdAt := 0
  storedAt := 0
  purgedAt := 0

/-- A script replaces the HttpOnly cookie the server set for the host by one for the domain. -/
theorem script_overwrites_http_only :
    ∃ jar after, Execution (setCookie plainPlatform) Unrestricted .empty jar ∧
      scriptCall.source = .nonHttp ∧ setCookie plainPlatform jar scriptCall = some after ∧
      ¬ KeepsHttpOnly jar scriptCall.purgedAt after := by
  refine ⟨_, _, .tail sessionCall .refl trivial rfl, rfl, rfl, fun keeps => ?_⟩
  have kept := keeps ⟨ascii ['s'], exampleHost, [slash]⟩ _ rfl rfl (by decide)
  revert kept
  decide

theorem host_only_script_keeps_http_only :
    ∃ jar after, setCookie plainPlatform .empty sessionCall = some jar ∧
      setCookie plainPlatform jar hostOnlyScriptCall = some after ∧
      KeepsHttpOnly jar hostOnlyScriptCall.purgedAt after := by
  refine ⟨_, _, rfl, rfl, ?_⟩
  refine ((http_only_kept_from_scripts plainPlatform _).1 hostOnlyScriptCall _ rfl rfl).mpr ?_
  intro cookie old made found _ _
  cases made
  cases found
  rfl

theorem host_cookie_off_root :
    ∃ jar, Execution (setCookie plainPlatform) Unrestricted .empty jar ∧
      ¬ HostCookiesAtRoot jar := by
  refine ⟨_, .tail hostCall .refl trivial rfl, fun atRoot => ?_⟩
  have root := atRoot ⟨hostName ++ ascii ['s'], exampleHost, ascii ['/', 'f', 'o', 'o']⟩ _ rfl
    (by decide)
  revert root
  decide

def hostRootCall : Call :=
  { hostCall with parsed := { hostCall.parsed with path := some [slash] } }

theorem host_cookie_with_path_at_root :
    ∃ jar, setCookie plainPlatform .empty hostRootCall = some jar ∧
      jar.cookies.entries ≠ [] ∧ HostCookiesAtRoot jar := by
  refine ⟨_, rfl, by decide, ?_⟩
  refine (prefixes_and_secure_cookies_kept plainPlatform _).2 (.tail hostRootCall .refl ?_ rfl)
  intro _ absent
  cases absent

end Ladybone.Cookies
