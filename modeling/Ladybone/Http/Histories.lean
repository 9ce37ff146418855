import Ladybone.Http.MemoryCache

/-!
# What the memory cache returns

Over every history of calls: where the entries come from, that the vectors keep the order of
finalization, and when the entry that is found is the right one.
-/

namespace Ladybone.Http

open Cookies (Text ascii)
open Support Support.Runs List

section
variable {Key : Type} [DecidableEq Key] {hashing : Hashing Key} {readers : Readers}
  {cache : MemoryCache Key}

/-! ## What a call does -/

def Matches (hashing : Hashing Key) (request : HeaderList) (variant : Variant Key) : Prop :=
  createVaryKey hashing request variant.responseHeaders = some variant.varyKey

instance (hashing : Hashing Key) (request : HeaderList) (variant : Variant Key) :
    Decidable (Matches hashing request variant) :=
  inferInstanceAs (Decidable (createVaryKey hashing request variant.responseHeaders = _))

theorem find_entry_spec {Stored : Type} {view : Stored → Variant Key} {req : HeaderList}
    {entries : List Stored} {opened : Opened Stored}
    (found : findEntry hashing view req entries = some (some opened)) :
    entries[opened.position]? = some opened.entry ∧ Matches hashing req (view opened.entry) ∧
      ∀ pos entry, pos < opened.position → entries[pos]? = some entry →
        ¬ Matches hashing req (view entry) := by
  induction entries generalizing opened with
  | nil => cases found
  | cons _ _ ih =>
    unfold findEntry at found
    split at found
    · cases found
    · rename_i key isKey
      split_ifs at found with same
      · cases found
        refine ⟨rfl, ?_, ?_⟩
        · exact isKey.trans (congrArg some same)
        · intro pos entry before
          exact absurd before (Nat.not_lt_zero _)
      · obtain ⟨inRest, foundRest, shifted⟩ := Option.map_eq_some_iff.mp found
        obtain ⟨openedRest, rfl, rfl⟩ := Option.map_eq_some_iff.mp shifted
        obtain ⟨there, matching, none⟩ := ih foundRest
        refine ⟨there, matching, ?_⟩
        intro pos entry before isEntry
        cases pos with
        | zero =>
          cases isEntry
          unfold Matches
          rwa [isKey, Option.some.injEq]
        | succ pos => exact none pos entry (Nat.lt_of_succ_lt_succ before) isEntry

def Lookup.opened : Lookup Key → Option (Opened (Entry Key))
  | .nothing => none
  | .returned opened => some opened
  | .expired opened => some opened

variable {opened : Opened (Entry Key)} {next : MemoryCache Key} {opening : Opening}

theorem look_up_spec {lookup : Lookup Key}
    (looked : lookUp hashing readers cache opening = some lookup)
    (isOpened : lookup.opened = some opened) :
    findEntry hashing Entry.toVariant opening.request.headers
      (under cache.complete (opening.request.cacheKey hashing)) = some (some opened) := by
  unfold lookUp at looked
  split_ifs at looked
  · cases looked
    cases isOpened
  · cases looked
    cases isOpened
  · obtain ⟨found, isFound, judged⟩ := Option.map_eq_some_iff.mp looked
    cases found with
    | none =>
      cases judged
      cases isOpened
    | some other =>
      -- both verdicts are about the entry that was found
      have sameOpened : lookup.opened = some other := by
        rw [← judged]
        dsimp only
        unfold judge
        split
        · rfl
        all_goals
          split_ifs
          all_goals rfl
      rw [isFound, ← isOpened, sameOpened]

theorem open_entry_returned
    (done : cache.openEntry hashing readers opening = some (some opened, next)) :
    lookUp hashing readers cache opening = some (.returned opened) := by
  obtain ⟨lookup, looked, result⟩ := Option.map_eq_some_iff.mp done
  cases lookup with
  | nothing | expired => cases result
  | returned =>
    cases result
    exact looked

/-- The ways a call changes the two tables. -/
inductive Effect (hashing : Hashing Key) (readers : Readers) (cache : MemoryCache Key) :
    Call → MemoryCache Key → Prop where
  | unchanged (call : Call)
      (notExpired : ∀ opening opened, call = .open opening →
        lookUp hashing readers cache opening ≠ some (.expired opened))
      (notTaken : ∀ finalization taken, call = .finalize finalization →
        takePending hashing cache finalization ≠ some (some taken)) :
      Effect hashing readers cache call cache
  | expired (opening : Opening) (opened : Opened (Entry Key))
      (looked : lookUp hashing readers cache opening = some (.expired opened)) :
      Effect hashing readers cache (.open opening)
        { cache with complete := remove (opening.request.cacheKey hashing) cache.complete }
  | created (creation : Creation) (entry : Entry Key)
      (made : newEntry hashing creation = some entry) :
      Effect hashing readers cache (.create creation)
        { cache with pending := appendTo (creation.request.cacheKey hashing) entry cache.pending }
  | finalized (finalization : Finalization) (entry : Entry Key) (rest : List (Entry Key))
      (taken : takePending hashing cache finalization = some (some (entry, rest))) :
      Effect hashing readers cache (.finalize finalization)
        { pending := replace (finalization.request.cacheKey hashing) rest cache.pending
          complete := appendTo (finalization.request.cacheKey hashing) entry cache.complete }

theorem step_effect {call : Call} (steps : cache.step hashing readers call = some next) :
    Effect hashing readers cache call next := by
  cases call with
  | «open» opening =>
    obtain ⟨result, done, rfl⟩ := Option.map_eq_some_iff.mp steps
    obtain ⟨lookup, looked, rfl⟩ := Option.map_eq_some_iff.mp done
    cases lookup with
    | expired opened => exact .expired opening opened looked
    | nothing | returned =>
      refine .unchanged _ ?_ nofun
      rintro _ _ ⟨⟩ isExpired
      rw [looked] at isExpired
      cases isExpired
  | create creation =>
    obtain ⟨mayStore, -, steps⟩ := Option.bind_eq_some_iff.mp steps
    cases mayStore with
    | false =>
      cases steps
      exact .unchanged _ nofun nofun
    | true =>
      obtain ⟨entry, made, steps⟩ := Option.bind_eq_some_iff.mp steps
      cases steps
      exact .created creation entry made
  | finalize finalization =>
    obtain ⟨taken, isTaken, rfl⟩ := Option.map_eq_some_iff.mp steps
    cases taken with
    | none =>
      refine .unchanged _ nofun ?_
      rintro _ _ ⟨⟩ isSome
      rw [isTaken] at isSome
      cases isSome
    | some taken => exact .finalized finalization taken.1 taken.2 isTaken

theorem take_pending_spec {finalization : Finalization}
    {entry : Entry Key} {rest : List (Entry Key)}
    (taken : takePending hashing cache finalization = some (some (entry, rest))) :
    (∃ pending ∈ under cache.pending (finalization.request.cacheKey hashing),
      entry = { pending with responseBody := finalization.body }) ∧
    ∀ other ∈ rest, other ∈ under cache.pending (finalization.request.cacheKey hashing) := by
  obtain ⟨mayStore, -, taken⟩ := Option.bind_eq_some_iff.mp taken
  cases mayStore with
  | false => cases taken
  | true =>
    obtain ⟨varyKey, -, taken⟩ := Option.bind_eq_some_iff.mp taken
    dsimp only at taken
    split at taken
    · rename_i pending found
      cases taken
      exact ⟨⟨pending, mem_of_find?_eq_some found, rfl⟩, fun other mem => mem_of_mem_eraseP mem⟩
    · cases taken

end

/-! ## Invariants of histories -/

section
variable {Key : Type} [DecidableEq Key] {hashing : Hashing Key} {readers : Readers}

/-- The entry was made by a creation; only its body may have come later. -/
def MadeBy (hashing : Hashing Key) (creation : Creation) (entry : Entry Key) : Prop :=
  newEntry hashing creation = some { entry with responseBody := [] }

def HasOrigin (hashing : Hashing Key) (traced : Traced Key) : Prop :=
  ∀ key entry, entry ∈ under traced.cache.pending key ∨ entry ∈ under traced.cache.complete key →
    ∃ creation ∈ traced.created, creation.request.cacheKey hashing = key ∧
      MadeBy hashing creation entry

def finalizedUnder (traced : Traced Key) (key : Key) : List (Entry Key) :=
  (traced.finalized.filter fun entry => entry.1 = key).map Prod.snd

def InOrder (traced : Traced Key) : Prop :=
  ∀ key, under traced.cache.complete key = finalizedUnder traced key

variable {table : Table Key (List (Entry Key))} {key other : Key} {entry : Entry Key}
  {traced next : Traced Key} {call : Call}

theorem mem_under_append_to {added : Entry Key}
    (mem : entry ∈ under (appendTo key added table) other) :
    entry ∈ under table other ∨ other = key ∧ entry = added := by
  unfold appendTo at mem
  by_cases same : other = key
  · rw [same, under_set_self] at mem
    rcases mem_append.mp mem with before | isAdded
    · exact .inl (same ▸ before)
    · exact .inr ⟨same, mem_singleton.mp isAdded⟩
  · rw [under_set_of_ne _ same] at mem
    exact .inl mem

theorem mem_under_replace {left : List (Entry Key)}
    (subset : ∀ entry ∈ left, entry ∈ under table key)
    (mem : entry ∈ under (replace key left table) other) : entry ∈ under table other := by
  by_cases same : other = key
  · rw [same, under_replace_self] at mem
    exact same ▸ subset entry mem
  · rwa [under_replace_of_ne _ same] at mem

theorem mem_under_remove (mem : entry ∈ under (remove key table) other) :
    entry ∈ under table other := by
  by_cases same : other = key
  · rw [same, under_remove_self] at mem
    cases mem
  · rwa [under_remove_of_ne _ same] at mem

theorem has_origin_step (origin : HasOrigin hashing traced)
    (steps : traced.step hashing readers call = some next) : HasOrigin hashing next := by
  obtain ⟨cache, cacheStepped, rfl⟩ := Option.map_eq_some_iff.mp steps
  intro key entry mem
  -- creations are only added
  have known : ∀ creation ∈ traced.created,
      creation ∈ (traced.recorded hashing readers call).1 := by
    intro creation isKnown
    unfold Traced.recorded
    split
    · split <;> exact isKnown
    · exact mem_append_left _ isKnown
    · split <;> exact isKnown
  have past : (entry ∈ under traced.cache.pending key ∨
      entry ∈ under traced.cache.complete key) →
      ∃ creation ∈ (traced.recorded hashing readers call).1,
        creation.request.cacheKey hashing = key ∧ MadeBy hashing creation entry := by
    intro before
    obtain ⟨creation, isKnown, made⟩ := origin key entry before
    exact ⟨creation, known creation isKnown, made⟩
  cases step_effect cacheStepped with
  | unchanged => exact past mem
  | expired =>
    rcases mem with isPending | isComplete
    · exact past (.inl isPending)
    · exact past (.inr (mem_under_remove isComplete))
  | created creation _ made =>
    rcases mem with isPending | isComplete
    · rcases mem_under_append_to isPending with before | ⟨sameKey, rfl⟩
      · exact past (.inl before)
      · refine ⟨creation, mem_append_right _ mem_cons_self, sameKey.symm, ?_⟩
        rw [MadeBy, made]
        obtain ⟨varyKey, -, rfl⟩ := Option.map_eq_some_iff.mp made
        rfl
    · exact past (.inr isComplete)
  | finalized _ _ _ taken =>
    obtain ⟨⟨pending, wasPending, rfl⟩, subset⟩ := take_pending_spec taken
    rcases mem with isPending | isComplete
    · exact past (.inl (mem_under_replace subset isPending))
    · rcases mem_under_append_to isComplete with before | ⟨sameKey, rfl⟩
      · exact past (.inr before)
      · obtain ⟨creation, isKnown, sameCreation, made⟩ := origin _ pending (.inl wasPending)
        exact ⟨creation, known creation isKnown, sameCreation.trans sameKey.symm, made⟩

theorem has_origin_run (run : Execution (Traced.step hashing readers) Unrestricted .empty traced) :
    HasOrigin hashing traced := by
  refine run.invariant (HasOrigin hashing) ?_ ?_
  · intro key entry member
    rcases member with isPending | isComplete
    · cases isPending
    · cases isComplete
  · intro before call after origin _ stepped
    exact has_origin_step origin stepped

theorem in_order_step (order : InOrder traced)
    (steps : traced.step hashing readers call = some next) : InOrder next := by
  obtain ⟨cache, cacheStepped, rfl⟩ := Option.map_eq_some_iff.mp steps
  intro key
  cases step_effect cacheStepped with
  | unchanged _ notExpired notTaken =>
    have sameLog : (traced.recorded hashing readers call).2 = traced.finalized := by
      unfold Traced.recorded
      split
      · rename_i opening
        split
        · rename_i opened looked
          exact absurd looked (notExpired opening opened rfl)
        · rfl
      · rfl
      · rename_i finalization
        split
        · rename_i entry rest taken
          exact absurd taken (notTaken finalization _ rfl)
        · rfl
    rw [order key, finalizedUnder, finalizedUnder, sameLog]
  | expired opening _ looked =>
    simp only [finalizedUnder, Traced.recorded, looked, filter_filter]
    by_cases same : key = opening.request.cacheKey hashing
    · subst same
      rw [under_remove_self, filter_eq_nil_iff.mpr (by simp)]
      rfl
    · rw [under_remove_of_ne _ same, order key, finalizedUnder]
      congr 1
      refine filter_congr fun entry _ => ?_
      by_cases under : entry.1 = key
      · simp [under, same]
      · simp [under]
  | created => exact order key
  | finalized finalization _ _ taken =>
    simp only [finalizedUnder, Traced.recorded, taken, filter_append]
    unfold appendTo
    by_cases same : key = finalization.request.cacheKey hashing
    · subst same
      rw [under_set_self, order, finalizedUnder]
      simp
    · rw [under_set_of_ne _ same, order, finalizedUnder]
      simp [Ne.symm same]

end

/-! ## The latest entry, and the fresh ones -/

section
variable {Key : Type} [DecidableEq Key] (hashing : Hashing Key) (readers : Readers)

def candidates (cache : MemoryCache Key) (request : Request) : List (Entry Key) :=
  under cache.complete (request.cacheKey hashing)

def IsLatest (cache : MemoryCache Key) (request : Request) (opened : Opened (Entry Key)) : Prop :=
  ∀ position entry, (candidates hashing cache request)[position]? = some entry →
    Matches hashing request.headers entry.toVariant → position ≤ opened.position

def NoSecondMatch (cache : MemoryCache Key) (request : Request) : Prop :=
  (candidates hashing cache request).Pairwise fun earlier later =>
    ¬ (Matches hashing request.headers earlier.toVariant ∧
      Matches hashing request.headers later.toVariant)

instance (cache : MemoryCache Key) (request : Request) :
    Decidable (NoSecondMatch hashing cache request) :=
  inferInstanceAs (Decidable (Pairwise _ _))

def IsFresh (opening : Opening) (entry : Entry Key) : Prop :=
  opening.age readers entry < opening.lifetime readers entry

instance (opening : Opening) (entry : Entry Key) : Decidable (IsFresh readers opening entry) :=
  inferInstanceAs (Decidable (_ < _))

def KeepsOtherFresh (cache next : MemoryCache Key) (opening : Opening)
    (opened : Opened (Entry Key)) : Prop :=
  ∀ key position entry, (key, position) ≠ (opening.request.cacheKey hashing, opened.position) →
    (under cache.complete key)[position]? = some entry → IsFresh readers opening entry →
      (under next.complete key)[position]? = some entry

/-- No candidate is fresh, except for the first one that matches. -/
def OthersStale (cache : MemoryCache Key) (opening : Opening) : Prop :=
  ∀ position entry, (candidates hashing cache opening.request)[position]? = some entry →
    IsFresh readers opening entry →
      Matches hashing opening.request.headers entry.toVariant ∧
        ∀ earlier ∈ (candidates hashing cache opening.request).take position,
          ¬ Matches hashing opening.request.headers earlier.toVariant

variable {hashing readers} {opened : Opened (Entry Key)}

theorem is_latest_iff_no_second_match {cache : MemoryCache Key} {req : Request}
    (found : findEntry hashing Entry.toVariant req.headers
      (candidates hashing cache req) = some (some opened)) :
    IsLatest hashing cache req opened ↔ NoSecondMatch hashing cache req := by
  obtain ⟨there, isMatch, none⟩ := find_entry_spec found
  obtain ⟨inside, atOpened⟩ := List.getElem?_eq_some_iff.mp there
  unfold NoSecondMatch
  rw [pairwise_iff_getElem]
  constructor
  · rintro latest first second firstInside secondInside order ⟨firstMatches, secondMatches⟩
    have late := latest second _ (getElem?_eq_getElem secondInside) secondMatches
    exact none first _ (Nat.lt_of_lt_of_le order late) (getElem?_eq_getElem firstInside)
      firstMatches
  · intro single pos entry isEntry matching
    by_contra later
    obtain ⟨posInside, rfl⟩ := List.getElem?_eq_some_iff.mp isEntry
    exact single opened.position pos inside posInside (Nat.lt_of_not_le later)
      ⟨atOpened.symm ▸ isMatch, matching⟩

theorem first_match_iff {entries : List (Entry Key)} {req : HeaderList} {pos : Nat}
    {entry : Entry Key} (found : findEntry hashing Entry.toVariant req entries = some (some opened))
    (isEntry : entries[pos]? = some entry) :
    (Matches hashing req entry.toVariant ∧
      ∀ earlier ∈ entries.take pos, ¬ Matches hashing req earlier.toVariant) ↔
        pos = opened.position := by
  obtain ⟨there, isMatch, none⟩ := find_entry_spec found
  constructor
  · rintro ⟨matching, first⟩
    rcases Nat.lt_trichotomy pos opened.position with before | same | after
    · exact absurd matching (none pos entry before isEntry)
    · exact same
    · refine absurd isMatch (first opened.entry (mem_of_getElem? (i := opened.position) ?_))
      rwa [getElem?_take_of_lt after]
  · rintro rfl
    rw [there, Option.some.injEq] at isEntry
    subst isEntry
    refine ⟨isMatch, fun earlier mem => ?_⟩
    obtain ⟨pos, isEarlier⟩ := mem_iff_getElem?.mp mem
    rw [getElem?_take] at isEarlier
    split_ifs at isEarlier with before
    exact none pos earlier before isEarlier

theorem others_stale_of_all_stale {cache : MemoryCache Key} {opening : Opening}
    (stale : ∀ entry ∈ candidates hashing cache opening.request,
      ¬ IsFresh readers opening entry) : OthersStale hashing readers cache opening :=
  fun _ entry isEntry fresh => absurd fresh (stale entry (mem_of_getElem? isEntry))

theorem keeps_other_fresh_iff {cache next : MemoryCache Key} {opening : Opening}
    (looked : lookUp hashing readers cache opening = some (.expired opened))
    (steps : cache.step hashing readers (.open opening) = some next) :
    KeepsOtherFresh hashing readers cache next opening opened ↔
      OthersStale hashing readers cache opening := by
  have found := look_up_spec looked rfl
  cases step_effect steps with
  | unchanged _ notExpired => exact absurd looked (notExpired opening opened rfl)
  | expired =>
    constructor
    · intro keeps pos entry isEntry fresh
      refine (first_match_iff found isEntry).mpr (by_contra fun differs => ?_)
      have kept := keeps _ pos entry (fun same => differs (congrArg Prod.snd same)) isEntry fresh
      rw [under_remove_self] at kept
      cases kept
    · intro stale key pos entry differs isEntry fresh
      by_cases same : key = opening.request.cacheKey hashing
      · subst same
        have isFirst := (first_match_iff found isEntry).mp (stale pos entry isEntry fresh)
        exact absurd (congrArg _ isFirst) differs
      · rwa [under_remove_of_ne _ same]

end

/-- In every history the vector of a key holds its complete entries in the order of finalization;
`open_entry` returns the latest match in exactly the states in which the request has only one, and
spares the other fresh entries in exactly the states in which there are none under the key. -/
theorem memory_cache_serves_latest {Key : Type} [DecidableEq Key] (hashing : Hashing Key)
    (readers : Readers) (traced : Traced Key)
    (run : Execution (Traced.step hashing readers) Unrestricted .empty traced) :
    InOrder traced ∧ (∀ opening opened next,
      traced.cache.openEntry hashing readers opening = some (some opened, next) →
      (candidates hashing traced.cache opening.request)[opened.position]? = some opened.entry ∧
        Matches hashing opening.request.headers opened.entry.toVariant ∧
        (IsLatest hashing traced.cache opening.request opened ↔
          NoSecondMatch hashing traced.cache opening.request)) ∧
    (∀ opening opened next, lookUp hashing readers traced.cache opening = some (.expired opened) →
      traced.cache.step hashing readers (.open opening) = some next →
      (KeepsOtherFresh hashing readers traced.cache next opening opened ↔
        OthersStale hashing readers traced.cache opening)) := by
  refine ⟨?_, ?_, ?_⟩
  · refine run.invariant InOrder (fun key => rfl) ?_
    intro before call after order _ stepped
    exact in_order_step order stepped
  · intro opening opened next done
    have found := look_up_spec (open_entry_returned done) rfl
    obtain ⟨there, matching, -⟩ := find_entry_spec found
    exact ⟨there, matching, is_latest_iff_no_second_match found⟩
  · intro opening opened next looked stepped
    exact keeps_other_fresh_iff looked stepped

/-! ## Histories that go wrong -/

def plainHashing : Hashing (Option Text) := ⟨some, none⟩

def plainReaders : Readers where
  parseHttpDate _ := none
  parseI64 text := if text.length = 1 then text.head?.map fun digit => digit.toNat - 48 else none

def plainRequest (headers : List Header) : Request where
  url := ascii ['u']
  method := ascii ['G', 'E', 'T']
  headers := ⟨headers⟩

/-- `Cache-Control: max-age=` with a digit, and `Vary: X` -/
def plainResponse (digit : Char) : HeaderList :=
  ⟨[⟨cacheControlName, maxAge ++ ascii ['=', digit]⟩, ⟨varyName, ascii ['X']⟩]⟩

def plainCreation (request : Request) (response : HeaderList) : Creation where
  request
  requestTime := 0
  statusCode := 200
  reasonPhrase := []
  response
  now := 0

def plainFinalization (request : Request) (response : HeaderList) (body : Text) : Finalization where
  request
  statusCode := 200
  response
  body

def plainOpening (request : Request) (seconds : Int) : Opening where
  request
  mode := .default
  lifetimeNow := secondsToDuration seconds
  ageNow := secondsToDuration seconds

def reloadedHistory : List Call :=
  [.create (plainCreation (plainRequest []) (plainResponse '9')),
    .finalize (plainFinalization (plainRequest []) (plainResponse '9') (ascii ['1'])),
    .create (plainCreation (plainRequest []) (plainResponse '9')),
    .finalize (plainFinalization (plainRequest []) (plainResponse '9') (ascii ['2']))]

def withX (value : Char) : Request := plainRequest [⟨ascii ['X'], ascii [value]⟩]

/-- A variant that lives for a second and one that lives for nine. -/
def variantsHistory : List Call :=
  [.create (plainCreation (withX 'a') (plainResponse '1')),
    .finalize (plainFinalization (withX 'a') (plainResponse '1') []),
    .create (plainCreation (withX 'b') (plainResponse '9')),
    .finalize (plainFinalization (withX 'b') (plainResponse '9') [])]

def followCalls (calls : List Call) : Option (Traced (Option Text)) :=
  follow (Traced.step plainHashing plainReaders) (fun _ _ => true) .empty calls

/-- The older of two responses is returned, and a fresh variant goes with an expired one. -/
theorem stale_match_and_lost_variant :
    (∃ traced opened next,
      Execution (Traced.step plainHashing plainReaders) Unrestricted .empty traced ∧
      traced.cache.openEntry plainHashing plainReaders (plainOpening (plainRequest []) 2) =
        some (some opened, next) ∧
      ¬ IsLatest plainHashing traced.cache (plainRequest []) opened) ∧
    ∃ traced opened next,
      Execution (Traced.step plainHashing plainReaders) Unrestricted .empty traced ∧
      lookUp plainHashing plainReaders traced.cache (plainOpening (withX 'a') 2) =
        some (.expired opened) ∧
      traced.cache.step plainHashing plainReaders (.open (plainOpening (withX 'a') 2)) = some next ∧
      ¬ KeepsOtherFresh plainHashing plainReaders traced.cache next (plainOpening (withX 'a') 2)
        opened := by
  refine ⟨⟨_, _, _, Execution.of_actions reloadedHistory rfl, rfl, ?_⟩, ?_⟩
  · intro latest
    have late := latest 1 _ rfl (by decide)
    cases late
  · refine ⟨_, _, _, Execution.of_actions variantsHistory rfl, rfl, rfl, ?_⟩
    intro keeps
    have kept := keeps ((withX 'a').cacheKey plainHashing) 1 _ (by decide) rfl (by decide)
    revert kept
    decide

theorem variants_served_latest :
    ∃ traced, followCalls variantsHistory = some traced ∧
      (∃ opened next,
        traced.cache.openEntry plainHashing plainReaders (plainOpening (withX 'b') 2) =
          some (some opened, next) ∧ opened.position = 1 ∧
        IsLatest plainHashing traced.cache (withX 'b') opened) ∧
      ∃ opened next, lookUp plainHashing plainReaders traced.cache (plainOpening (withX 'a') 10) =
          some (.expired opened) ∧
        traced.cache.step plainHashing plainReaders (.open (plainOpening (withX 'a') 10)) =
          some next ∧
        KeepsOtherFresh plainHashing plainReaders traced.cache next (plainOpening (withX 'a') 10)
          opened := by
  have run : ∃ traced, followCalls variantsHistory = some traced := ⟨_, rfl⟩
  obtain ⟨traced, followed⟩ := run
  obtain ⟨-, latest, spares⟩ := memory_cache_serves_latest plainHashing plainReaders traced
    (Execution.of_actions variantsHistory followed)
  cases followed
  refine ⟨_, rfl, ⟨_, _, rfl, rfl, ?_⟩, _, _, rfl, rfl, ?_⟩
  · exact (latest (plainOpening (withX 'b') 2) _ _ rfl).2.2.mpr (by decide)
  · exact (spares (plainOpening (withX 'a') 10) _ _ rfl rfl).mpr
      (others_stale_of_all_stale (by decide))

end Ladybone.Http
