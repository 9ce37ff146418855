import Ladybone.Cookies.Integrity

/-!
# Cookies for a request

`get_matching_cookies` and `get_cookie`. The entries of the jar are visited in the order of the
table, which is arbitrary. Matching reads the serialized path of the URL, whereas the default path
of a cookie comes from the percent-decoded one.
-/

namespace Ladybone.Cookies

open Support Support.Checks List

def hexValue (byte : UInt8) : Option UInt8 :=
  if 0x30 ≤ byte ∧ byte ≤ 0x39 then some (byte - 0x30)
  else if 0x41 ≤ byte ∧ byte ≤ 0x46 then some (byte - 0x37)
  else if 0x61 ≤ byte ∧ byte ≤ 0x66 then some (byte - 0x57)
  else none

def percentDecode : Text → Text
  | 0x25 :: high :: low :: rest =>
    match hexValue high, hexValue low with
    | some first, some second => (first * 16 + second) :: percentDecode rest
    | _, _ => 0x25 :: percentDecode (high :: low :: rest)
  | byte :: rest => byte :: percentDecode rest
  | [] => []

/-- The URL of a retrieval, with the path as `serialize_path` gives it. -/
structure Request extends Url where
  serializedPath : Text
  decoded : path = percentDecode serializedPath

inductive MatchingCookiesSpecMode where
  | rfc6265
  | webDriver
deriving DecidableEq

section
variable (platform : Platform) (request : Request) (source : Source)

def cookieMatchesUrl (host : Text) (cookie : Cookie) : Bool :=
  let identicalDomain := cookie.hostOnly && host == cookie.domain
  let matchingDomain := (!cookie.hostOnly && domainMatches platform host cookie.domain) &&
    !platform.isPublicSuffix cookie.domain
  if !identicalDomain && !matchingDomain then false
  else if !pathMatches request.serializedPath cookie.path then false
  else if cookie.secure && !request.isHttps && request.scheme != ascii ['w', 's', 's'] then false
  else if cookie.httpOnly && source != .http then false
  else true

/-- The predicate `insert_before_matching` is given. -/
def listedBefore (cookie entry : Cookie) : Bool :=
  if entry.path.length < cookie.path.length then true
  else if cookie.path.length = entry.path.length then
    decide (cookie.creationTime < entry.creationTime)
  else false

def insertBeforeMatching (cookie : Cookie) : List Cookie → List Cookie
  | [] => [cookie]
  | entry :: rest =>
    if listedBefore cookie entry then cookie :: entry :: rest
    else entry :: insertBeforeMatching cookie rest

def Cookie.accessedAt (now : Time) (cookie : Cookie) : Cookie :=
  { cookie with lastAccessTime := now }

/-- Step 5 for the cookies that match, where they are stored. -/
def Jar.access (jar : Jar) (accessed : Cookie → Bool) (now : Time) : Jar where
  cookies := jar.cookies.mapValues fun cookie =>
    if accessed cookie then cookie.accessedAt now else cookie
  keyed := by
    intro entry member
    obtain ⟨stored, inside, rfl⟩ := mem_map.mp member
    have sameKey := jar.keyed stored inside
    dsimp only
    split
    · exact sameKey
    · exact sameKey

/-- `get_matching_cookies`, with what the clock says at its start and when it purges. -/
def getMatchingCookies (jar : Jar) (mode : MatchingCookiesSpecMode) (now purgedAt : Time) :
    List Cookie × Jar :=
  match canonicalizeDomain request.toUrl with
  | none => ([], jar)
  | some host =>
    let accessed := cookieMatchesUrl platform request source host
    let stored := jar.cookies.entries.map Prod.snd
    match mode with
    | .webDriver => (stored.filter accessed, jar)
    | .rfc6265 =>
      (stored.foldl (fun list cookie =>
          if accessed cookie then insertBeforeMatching (cookie.accessedAt now) list
          else list) [],
        (jar.access accessed now).purge purgedAt)

def getAllCookiesCookiestore (jar : Jar) (now purgedAt : Time) : List Cookie × Jar :=
  getMatchingCookies platform request .nonHttp jar .rfc6265 now purgedAt

def serializeCookies : List Cookie → Text → Text
  | [], string => string
  | cookie :: rest, string =>
    serializeCookies rest
      (string ++ (if string.isEmpty then [] else ascii [';', ' ']) ++
        (if cookie.name.isEmpty then [] else cookie.name ++ ascii ['=']) ++ cookie.value)

/-- `get_cookie`, with what the clock says when it purges before the retrieval. -/
def getCookie (jar : Jar) (purgedFirst now purgedAt : Time) : Text × Jar :=
  let (list, after) := getMatchingCookies platform request source (jar.purge purgedFirst) .rfc6265
    now purgedAt
  (serializeCookies list [], after)

end

/-! ## The order of the list -/

def ListOrder (first second : Cookie) : Prop :=
  second.path.length < first.path.length ∨
    second.path.length = first.path.length ∧ first.creationTime ≤ second.creationTime

theorem listed_before_iff {cookie entry : Cookie} :
    listedBefore cookie entry = true ↔ ¬ListOrder entry cookie := by
  unfold listedBefore ListOrder
  grind

theorem ListOrder.total {first second : Cookie} (behind : ¬ListOrder first second) :
    ListOrder second first := by
  unfold ListOrder at *
  grind

theorem ListOrder.trans {first second third : Cookie} (left : ListOrder first second)
    (right : ListOrder second third) : ListOrder first third := by
  unfold ListOrder at *
  grind

theorem insert_perm {cookie : Cookie} (list : List Cookie) :
    (insertBeforeMatching cookie list).Perm (cookie :: list) := by
  induction list with
  | nil => exact List.Perm.refl _
  | cons entry rest ih =>
    unfold insertBeforeMatching
    split
    · exact List.Perm.refl _
    · exact (ih.cons entry).trans (List.Perm.swap cookie entry rest)

theorem insert_sorted (cookie : Cookie) {list : List Cookie} (sorted : list.Pairwise ListOrder) :
    (insertBeforeMatching cookie list).Pairwise ListOrder := by
  induction list with
  | nil => exact pairwise_singleton _ _
  | cons entry rest ih =>
    have tail := pairwise_cons.mp sorted
    unfold insertBeforeMatching
    split
    · rename_i before
      have ahead := ListOrder.total (listed_before_iff.mp before)
      refine List.Pairwise.cons ?_ sorted
      exact forall_mem_cons.mpr ⟨ahead, fun other later => ahead.trans (tail.1 other later)⟩
    · rename_i after
      refine List.Pairwise.cons ?_ (ih tail.2)
      intro other mem
      rcases mem_cons.mp ((insert_perm rest).mem_iff.mp mem) with same | later
      · rw [same]
        exact not_not.mp fun behind => after (listed_before_iff.mpr behind)
      · exact tail.1 other later

theorem fold_insert_spec {accessed : Cookie → Bool} (now : Time) (stored list : List Cookie)
    (sorted : list.Pairwise ListOrder) :
    let result := stored.foldl (fun list cookie =>
      if accessed cookie then insertBeforeMatching (cookie.accessedAt now) list else list) list
    result.Pairwise ListOrder ∧
      result.Perm ((stored.filter accessed).map (Cookie.accessedAt now) ++ list) := by
  induction stored generalizing list with
  | nil => exact ⟨sorted, List.Perm.refl _⟩
  | cons cookie _ ih =>
    rw [foldl_cons, filter_cons]
    split
    · obtain ⟨ordered, perm⟩ := ih _ (insert_sorted (cookie.accessedAt now) sorted)
      refine ⟨ordered, perm.trans ?_⟩
      refine ((insert_perm list).append_left _).trans ?_
      exact perm_middle
    · exact ih list sorted

/-! ## What is retrieved -/

def matchesRequest (platform : Platform) (request : Request) (source : Source)
    (cookie : Cookie) : Bool :=
  (canonicalizeDomain request.toUrl).any fun host =>
    cookieMatchesUrl platform request source host cookie

/-- The cookies of the jar that match and have not expired at `current`, each once and in order. -/
def Retrieves (platform : Platform) (request : Request) (source : Source) (jar : Jar)
    (current now : Time) (list : List Cookie) : Prop :=
  list.Pairwise ListOrder ∧
    list.Perm (((jar.cookies.entries.map Prod.snd).filter fun cookie =>
      matchesRequest platform request source cookie && decide (current ≤ cookie.expiryTime)).map
        (Cookie.accessedAt now))

section
variable (platform : Platform) (request : Request) (source : Source) (jar : Jar)
  (now purgedAt : Time)

theorem get_matching_cookies_spec :
    let list := (getMatchingCookies platform request source jar .rfc6265 now purgedAt).1
    list.Pairwise ListOrder ∧ list.Perm (((jar.cookies.entries.map Prod.snd).filter
        (matchesRequest platform request source)).map (Cookie.accessedAt now)) := by
  unfold getMatchingCookies matchesRequest
  cases canonicalizeDomain request.toUrl with
  | none => simp
  | some host =>
    simpa using fold_insert_spec now (jar.cookies.entries.map Prod.snd) [] List.Pairwise.nil

theorem mem_stored_iff (cookie : Cookie) :
    cookie ∈ jar.cookies.entries.map Prod.snd ↔ ∃ key, jar.cookies.get key = some cookie := by
  simp [Table.get_eq_some_iff]

theorem retrieves_iff_unexpired :
    Retrieves platform request source jar now now
        (getMatchingCookies platform request source jar .rfc6265 now purgedAt).1 ↔
      ∀ key cookie, jar.cookies.get key = some cookie →
        matchesRequest platform request source cookie = true → now ≤ cookie.expiryTime := by
  obtain ⟨ordered, perm⟩ :=
    get_matching_cookies_spec platform request source jar now purgedAt
  have nested := filter_filter (p := fun cookie => decide (now ≤ cookie.expiryTime))
    (q := matchesRequest platform request source) (l := jar.cookies.entries.map Prod.snd)
  unfold Retrieves
  simp only [Bool.and_comm (matchesRequest platform request source _), ← nested]
  constructor
  · rintro ⟨-, exact⟩ key cookie found matching
    have kept := exact.symm.length_eq.trans perm.length_eq
    rw [length_map, length_map, length_filter_eq_length_iff] at kept
    have stored := (mem_stored_iff jar cookie).mpr ⟨key, found⟩
    exact of_decide_eq_true (kept cookie (mem_filter.mpr ⟨stored, matching⟩))
  · intro unexpired
    rw [filter_eq_self.mpr fun cookie mem => ?_]
    · exact ⟨ordered, perm⟩
    · obtain ⟨stored, matching⟩ := mem_filter.mp mem
      obtain ⟨key, found⟩ := (mem_stored_iff jar cookie).mp stored
      exact decide_eq_true (unexpired key cookie found matching)

/-- `get_matching_cookies` returns what has expired and was not purged yet; `get_cookie`, which
purges first, does not. -/
theorem cookie_retrieval_iff :
    (Retrieves platform request source jar now now
        (getMatchingCookies platform request source jar .rfc6265 now purgedAt).1 ↔
      ∀ key cookie, jar.cookies.get key = some cookie →
        matchesRequest platform request source cookie = true → now ≤ cookie.expiryTime) ∧
    ∀ purgedFirst, ∃ list, Retrieves platform request source jar purgedFirst now list ∧
      (getCookie platform request source jar purgedFirst now purgedAt).1 =
        serializeCookies list [] := by
  refine ⟨retrieves_iff_unexpired platform request source jar now purgedAt, ?_⟩
  intro purgedFirst
  obtain ⟨ordered, perm⟩ :=
    get_matching_cookies_spec platform request source (jar.purge purgedFirst) now purgedAt
  have stored : (jar.purge purgedFirst).cookies.entries.map Prod.snd =
      (jar.cookies.entries.map Prod.snd).filter
        fun cookie => decide (purgedFirst ≤ cookie.expiryTime) := by
    simp only [Jar.purge, Table.discard, filter_map, Function.comp_def, decide_not, ← Int.not_lt]
  refine ⟨_, ⟨ordered, ?_⟩, rfl⟩
  rwa [stored, filter_filter] at perm

variable {jar} in
theorem mem_get_matching_iff {key : CookieStorageKey} {cookie : Cookie}
    (found : jar.cookies.get key = some cookie) :
    cookie.accessedAt now ∈
        (getMatchingCookies platform request source jar .rfc6265 now purgedAt).1 ↔
      matchesRequest platform request source cookie = true := by
  have perm := (get_matching_cookies_spec platform request source jar now purgedAt).2
  rw [perm.mem_iff, mem_map]
  constructor
  · rintro ⟨other, mem, same⟩
    obtain ⟨stored, matching⟩ := mem_filter.mp mem
    obtain ⟨otherKey, otherFound⟩ := (mem_stored_iff jar other).mp stored
    -- the access time is no part of the key
    have sameKey : other.key = cookie.key :=
      (congrArg Cookie.key same : (other.accessedAt now).key = (cookie.accessedAt now).key)
    rw [jar.key_of_get otherFound, sameKey, ← jar.key_of_get found, found] at otherFound
    cases otherFound
    exact matching
  · intro matching
    exact ⟨cookie, mem_filter.mpr ⟨(mem_stored_iff jar cookie).mpr ⟨key, found⟩, matching⟩, rfl⟩

end

/-! ## Default paths -/

def isEscape : Text → Bool
  | 0x25 :: high :: low :: _ => (hexValue high).isSome && (hexValue low).isSome
  | _ => false

/-- No percent-escape stands before the last slash of the decoded path, nor in its place unless
another slash stands right before it. -/
def PlainDirectory (platform : Platform) (request : Request) : Prop :=
  request.serializedPath.head? = some slash ∧
    (beforeLastSlash request.path = [] ∨
      platform.isUtf8 (beforeLastSlash request.path) = true ∧
        (∀ i < (beforeLastSlash request.path).length,
          isEscape (request.serializedPath.drop i) = false) ∧
        (isEscape (request.serializedPath.drop (beforeLastSlash request.path).length) = true →
          (beforeLastSlash request.path).getLast? = some slash))

theorem percent_decode_length (text : Text) : (percentDecode text).length ≤ text.length := by
  fun_induction percentDecode text with
  | case1 high low rest first second _ _ ih =>
    simp only [length_cons]
    omega
  | case2 high low rest _ ih => simpa using ih
  | case3 byte rest _ ih => simpa using ih
  | case4 => exact Nat.le_refl _

section
variable {text directory rest : Text} {n : Nat}

theorem percent_decode_cons {byte : UInt8} (plain : isEscape (byte :: rest) = false) :
    percentDecode (byte :: rest) = byte :: percentDecode rest := by
  match rest with
  | [] | [_] => simp [percentDecode]
  | high :: low :: rest =>
    by_cases percent : byte = 0x25
    · subst percent
      simp only [percentDecode]
      split
      · simp_all [isEscape]
      · rfl
    · rw [percentDecode]
      rintro _ _ _ rfl
      contradiction

theorem escape_head (escape : isEscape text = true) : ∃ high low rest byte,
    text = 0x25 :: high :: low :: rest ∧ high ≠ slash ∧ low ≠ slash ∧
      percentDecode text = byte :: percentDecode rest := by
  unfold isEscape at escape
  split at escape
  · next high low rest =>
    rw [Bool.and_eq_true, Option.isSome_iff_exists, Option.isSome_iff_exists] at escape
    obtain ⟨⟨first, isHigh⟩, second, isLow⟩ := escape
    refine ⟨high, low, rest, first * 16 + second, rfl, ?_, ?_, ?_⟩
    · rintro rfl
      cases isHigh
    · rintro rfl
      cases isLow
    · rw [percentDecode, isHigh, isLow]
  · cases escape

theorem percent_decode_take (plain : ∀ i < n, isEscape (text.drop i) = false) :
    (percentDecode text).take n = text.take n := by
  induction n generalizing text with
  | zero => rfl
  | succ n ih =>
    cases text with
    | nil => rfl
    | cons byte rest =>
      rw [percent_decode_cons (plain 0 (Nat.succ_pos n)), take_succ_cons, take_succ_cons,
        ih fun i inside => plain (i + 1) (Nat.succ_lt_succ inside)]

theorem count_take_mono {m : Nat} (fewer : n ≤ m) :
    (text.take n).count slash ≤ (text.take m).count slash :=
  (take_sublist_take_left fewer).count_le slash

/-- Decoding brings slashes forward, and those behind an escape by a byte at least. -/
theorem slashes_come_forward (text : Text) (m : Nat) :
    (text.take m).count slash ≤ ((percentDecode text).take m).count slash ∧
      ∀ n < m, isEscape (text.drop n) = true →
        (text.take m).count slash ≤ ((percentDecode text).take (m - 1)).count slash := by
  induction m using Nat.strongRecOn generalizing text with
  | ind m ih =>
    obtain _ | m := m
    · simp
    by_cases escape : isEscape text = true
    · obtain ⟨high, low, rest, byte, rfl, notHigh, notLow, decoded⟩ := escape_head escape
      have behind : ((0x25 :: high :: low :: rest).take (m + 1)).count slash ≤
          (rest.take (m - 1)).count slash := by
        have percent : (0x25 : UInt8) ≠ slash := by decide
        obtain _ | _ | m := m
        · simp [count_cons_of_ne percent]
        · simp [count_cons_of_ne percent, count_cons_of_ne notHigh]
        · simpa [count_cons_of_ne percent, count_cons_of_ne notHigh, count_cons_of_ne notLow] using
            count_take_mono (Nat.le_succ m)
      have earlier := Nat.le_trans behind (ih (m - 1) (by omega) rest).1
      have later : ((percentDecode rest).take (m - 1)).count slash ≤
          ((byte :: percentDecode rest).take m).count slash := by
        cases m with
        | zero => simp
        | succ m => simp [count_cons]
      have kept := Nat.le_trans earlier later
      rw [decoded]
      exact ⟨Nat.le_trans kept (count_take_mono (Nat.le_succ m)), fun _ _ _ => kept⟩
    · cases text with
      | nil => simp
      | cons byte rest =>
        obtain ⟨forward, further⟩ := ih m (Nat.lt_succ_self m) rest
        rw [percent_decode_cons (Bool.eq_false_iff.mpr escape), take_succ_cons, take_succ_cons,
          count_cons, count_cons]
        refine ⟨Nat.add_le_add_right forward _, fun n before later => ?_⟩
        obtain _ | n := n
        · exact absurd later escape
        · obtain _ | m := m
          · omega
          · have := further n (Nat.lt_of_succ_lt_succ before) later
            rw [Nat.add_sub_cancel, take_succ_cons, count_cons]
            exact Nat.add_le_add_right this _

theorem plain_up_to_slash {front tail : Text}
    (decoded : percentDecode (front ++ slash :: tail) = front ++ rest) (inside : n ≤ front.length) :
    isEscape ((front ++ slash :: tail).drop n) = false := by
  refine Bool.eq_false_iff.mpr fun escape => ?_
  have fewer := (slashes_come_forward (front ++ slash :: tail) (front.length + 1)).2 n
    (Nat.lt_succ_of_le inside) escape
  rw [decoded, Nat.add_sub_cancel, take_left, take_append, count_append,
    take_of_length_le (Nat.le_succ front.length), Nat.add_sub_cancel_left, take_succ_cons,
    count_cons_self] at fewer
  omega

theorem before_last_slash_split (has : slash ∈ text) :
    ∃ rest, text = beforeLastSlash text ++ slash :: rest := by
  unfold beforeLastSlash
  have whole := @takeWhile_append_dropWhile _ (· != slash) text.reverse
  cases back : text.reverse.dropWhile (· != slash) with
  | nil =>
    rw [back, append_nil] at whole
    have all := all_eq_true.mp (@all_takeWhile _ (· != slash) text.reverse)
    rw [whole] at all
    simpa using all slash (mem_reverse.mpr has)
  | cons last front =>
    have isSlash := head?_dropWhile_not (· != slash) text.reverse
    rw [back] at whole isSlash
    obtain rfl : last = slash := by simpa using isSlash
    refine ⟨(text.reverse.takeWhile (· != slash)).reverse, ?_⟩
    have turned := congrArg reverse whole
    simpa using turned.symm

theorem path_matches_iff (notSame : text ≠ directory) :
    pathMatches text directory = true ↔ directory <+: text ∧
      (directory.getLast? = some slash ∨ text[directory.length]? = some slash) := by
  unfold pathMatches
  rw [if_neg notSame]
  simp only [ isPrefixOf_iff_prefix]
  split_ifs with inside endsInSlash
  · simp [inside, endsInSlash]
  · simp [inside, endsInSlash]
  · simp [inside]

theorem directory_matches_iff (decoded : percentDecode text = directory ++ slash :: rest) :
    pathMatches text directory = true ↔
      (∀ i < directory.length, isEscape (text.drop i) = false) ∧
        (isEscape (text.drop directory.length) = true → directory.getLast? = some slash) := by
  have shorter := percent_decode_length text
  rw [decoded, length_append, length_cons] at shorter
  have notSame : text ≠ directory := by
    rintro rfl
    omega
  rw [path_matches_iff notSame]
  constructor
  · rintro ⟨⟨tail, rfl⟩, closed⟩
    rcases closed with ends | follows
    · obtain ⟨front, rfl⟩ := getLast?_eq_some_iff.mp ends
      rw [append_assoc, append_assoc] at decoded
      refine ⟨fun i inside => ?_, fun _ => ends⟩
      rw [append_assoc]
      exact plain_up_to_slash decoded (by simpa [Nat.lt_succ_iff] using inside)
    · cases tail with
      | nil => simp at follows
      | cons byte tail =>
        obtain rfl : byte = slash := by simpa using follows
        have plain {i : Nat} := @plain_up_to_slash _ i _ _ decoded
        refine ⟨fun i inside => plain (Nat.le_of_lt inside), fun escape => ?_⟩
        rw [plain (Nat.le_refl _)] at escape
        cases escape
  · rintro ⟨plain, closed⟩
    have start := percent_decode_take plain
    rw [decoded, take_left] at start
    refine ⟨⟨_, (congrArg (· ++ _) start).trans (take_append_drop _ _)⟩, ?_⟩
    by_cases escape : isEscape (text.drop directory.length) = true
    · exact .inl (closed escape)
    · have further := percent_decode_take fun i (inside : i < directory.length + 1) => by
        rcases Nat.lt_succ_iff_lt_or_eq.mp inside with before | rfl
        · exact plain i before
        · exact Bool.eq_false_iff.mpr escape
      have there := congrArg (·[directory.length]?) further
      exact .inr (by simpa [decoded, getElem?_take] using there.symm)

end

theorem path_matches_root (path : Text) :
    pathMatches path [slash] = true ↔ path.head? = some slash := by
  unfold pathMatches
  cases path with
  | nil => simp
  | cons first =>
    by_cases same : first = slash
    · simp [same]
    · simp [same, Ne.symm same]

theorem default_path_matches_iff {host : Platform} {request : Request} :
    (∃ path, defaultPath host request.toUrl = some path ∧
        pathMatches request.serializedPath path = true) ↔
      PlainDirectory host request := by
  have root := path_matches_root request.serializedPath
  unfold defaultPath PlainDirectory
  split_ifs with relative atRoot valid
  · simp only [Option.some.injEq, exists_eq_left', root]
    refine ⟨fun begins => absurd ?_ relative, fun plain => plain.1⟩
    obtain ⟨rest, serialized⟩ := head?_eq_some_iff.mp begins
    rw [request.decoded, serialized]
    rfl
  · simp [root, atRoot]
  · simp only [Option.some.injEq, exists_eq_left', atRoot, valid]
    have begins : request.path.head? = some slash := not_not.mp relative
    obtain ⟨rest, decoded⟩ := before_last_slash_split (mem_of_mem_head? begins)
    have matching := directory_matches_iff (request.decoded.symm.trans decoded)
    have sameHead : pathMatches request.serializedPath (beforeLastSlash request.path) = true →
        request.serializedPath.head? = some slash := by
      intro isMatch
      have plain := (matching.mp isMatch).1
      have first := percent_decode_take fun i (inside : i < 1) => plain i (by
        have := length_pos_iff.mpr atRoot
        omega)
      rw [← request.decoded] at first
      have heads := congrArg head? first
      simpa [head?_take, begins] using heads.symm
    simp only [false_or, true_and, ← matching]
    exact ⟨fun isMatch => ⟨sameHead isMatch, isMatch⟩, And.right⟩
  · simp [atRoot, valid]

theorem unattributed_domain {host : Platform} {jar : Jar} {call : Call} {cookie : Cookie}
    (made : newCookie host jar call = .ok cookie) (unattributed : call.parsed.domain = none) :
    call.url.host = some cookie.domain ∧ cookie.hostOnly = true := by
  obtain ⟨-, made⟩ := check_bind_eq_ok.mp made
  obtain ⟨⟨domain, hostOnly⟩, domainDone, made⟩ := bind_eq_ok.mp made
  obtain ⟨path, -, made⟩ := bind_eq_ok.mp made
  obtain ⟨-, made⟩ := check_bind_eq_ok.mp made
  obtain ⟨-, made⟩ := check_bind_eq_ok.mp made
  cases made
  obtain ⟨-, domainDone⟩ := check_bind_eq_ok.mp domainDone
  obtain ⟨requestHost, hasHost, domainDone⟩ := bind_eq_ok.mp domainDone
  obtain ⟨checked, passed, domainDone⟩ := bind_eq_ok.mp domainDone
  have empty : checked = [] := by
    simp only [domainAttribute, unattributed, checkPublicSuffix] at passed
    split_ifs at passed
    · cases passed
      rfl
    · cases passed
      rfl
  subst empty
  cases domainDone
  exact ⟨present_eq_ok.mp hasHost, rfl⟩

/-- A call of `set_cookie` from the URL of a request that stored `cookie` without a path or a
domain attribute. -/
structure StoredFrom (platform : Platform) (jar : Jar) (request : Request) (call : Call)
    (cookie : Cookie) (after : Jar) : Prop where
  url : call.url = request.toUrl
  noPath : call.parsed.path = none
  noDomain : call.parsed.domain = none
  accepted : ∃ new, newCookie platform jar call = .ok new ∧
    mergeWithOld call.source (jar.cookies.get new.key) new = some cookie
  unexpired : call.storedAt ≤ cookie.expiryTime ∧ call.purgedAt ≤ cookie.expiryTime
  done : setCookie platform jar call = some after

/-- The default path is defined and matches, and the page sees the cookie it has set without a
path, exactly when the path needs no decoding up to its last slash. -/
theorem default_path_visible_iff (platform : Platform) (request : Request) :
    ((∃ path, defaultPath platform request.toUrl = some path ∧
        pathMatches request.serializedPath path = true) ↔ PlainDirectory platform request) ∧
    ∀ jar call cookie after now purgedAt, StoredFrom platform jar request call cookie after →
      (cookie.accessedAt now ∈
          (getMatchingCookies platform request .http after .rfc6265 now purgedAt).1 ↔
        PlainDirectory platform request) := by
  refine ⟨default_path_matches_iff, ?_⟩
  intro jar call cookie after now purgedAt stored
  obtain ⟨sameUrl, noPath, noDomain, ⟨new, made, merged⟩, ⟨unexpired, kept⟩, done⟩ := stored
  obtain ⟨host, hostOnly⟩ := unattributed_domain made noDomain
  have facts := new_cookie_made made
  have path := facts.path noPath
  obtain ⟨⟨time, rfl⟩, -⟩ := merge_with_old_spec merged
  have matching : matchesRequest platform request .http { new with creationTime := time } =
      pathMatches request.serializedPath new.path := by
    have secure : new.secure = true → request.isHttps = true := by
      rw [← sameUrl]
      exact facts.https
    rw [sameUrl] at host
    cases isSecure : new.secure with
    | true =>
      simp [matchesRequest, cookieMatchesUrl, canonicalizeDomain, host, hostOnly, secure isSecure]
    | false =>
      simp [matchesRequest, cookieMatchesUrl, canonicalizeDomain, host, hostOnly]
  have present : after.cookies.get new.key = some { new with creationTime := time } := by
    unfold setCookie at done
    simp only [made, merged, Option.some.injEq] at done
    rw [← done, purge_get_iff]
    refine ⟨?_, kept⟩
    unfold Jar.store
    rw [if_neg fun skipped => absurd skipped.1 (Int.not_lt.mpr unexpired)]
    exact Table.get_set_self
  rw [mem_get_matching_iff platform request .http now purgedAt present, matching,
    ← default_path_matches_iff, ← sameUrl, path]
  simp

/-- `https://a.test/a%20b/c` -/
def escapedRequest : Request where
  scheme := ascii ['h', 't', 't', 'p', 's']
  host := some exampleHost
  path := ascii ['/', 'a', ' ', 'b', '/', 'c']
  serializedPath := ascii ['/', 'a', '%', '2', '0', 'b', '/', 'c']
  decoded := by decide

def plainRequest : Request where
  toUrl := exampleUrl
  serializedPath := exampleUrl.path
  decoded := by decide

def plainCall (request : Request) : Call where
  url := request.toUrl
  parsed := { name := ascii ['s'], value := ascii ['1'] }
  source := .http
  createdAt := 0
  storedAt := 0
  purgedAt := 0

def plainCookie (path : Text) : Cookie :=
  { name := ascii ['s'], value := ascii ['1'], expiryTime := latestDate, domain := exampleHost,
    path := path, hostOnly := true }

theorem default_path_visible_iff_plain :
    ∃ after, setCookie plainPlatform .empty (plainCall plainRequest) = some after ∧
      ((plainCookie (ascii ['/', 'f', 'o', 'o'])).accessedAt 1 ∈
          (getMatchingCookies plainPlatform plainRequest .http after .rfc6265 1 1).1 ↔
        PlainDirectory plainPlatform plainRequest) :=
  ⟨_, rfl, (default_path_visible_iff plainPlatform plainRequest).2 .empty
    (plainCall plainRequest) _ _ 1 1
    ⟨rfl, rfl, rfl, ⟨_, rfl, rfl⟩, by decide, rfl⟩⟩

/-- The page `/a%20b/c` sets a cookie for `/a b` and does not see it. -/
theorem escaped_page_misses_cookie :
    ∃ after, setCookie plainPlatform .empty (plainCall escapedRequest) = some after ∧
      defaultPath plainPlatform escapedRequest.toUrl = some (ascii ['/', 'a', ' ', 'b']) ∧
      pathMatches escapedRequest.serializedPath (ascii ['/', 'a', ' ', 'b']) = false ∧
      after.cookies.entries.length = 1 ∧
      (getMatchingCookies plainPlatform escapedRequest .http after .rfc6265 1 1).1 = [] := by
  refine ⟨_, rfl, ?_⟩
  decide

def staleJar : Jar :=
  Jar.empty.insert { plainCookie (ascii ['/']) with expiryTime := 5 }

theorem expired_cookie_retrieved :
    (getAllCookiesCookiestore plainPlatform plainRequest staleJar 10 10).1.length = 1 ∧
      ¬Retrieves plainPlatform plainRequest .nonHttp staleJar 10 10
        (getAllCookiesCookiestore plainPlatform plainRequest staleJar 10 10).1 := by
  refine ⟨by decide, fun retrieves => ?_⟩
  have size := retrieves.2.length_eq
  revert size
  decide

end Ladybone.Cookies
