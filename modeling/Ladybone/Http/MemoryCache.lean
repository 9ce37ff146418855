import Ladybone.Http.Policy
import Ladybone.Support.Runs
import Ladybone.Support.Table

/-!
# The memory cache

`MemoryCache::open_entry`, `create_entry` and `finalize_entry` over the vectors of pending and of
complete entries under a cache key, and how far the entries that `open_entry` finds are the ones a
request should get.
-/

namespace Ladybone.Http

open Cookies (Text)
open Support

/-- What decides whether a stored response answers a request. -/
structure Variant (Key : Type) where
  varyKey : Key
  responseHeaders : HeaderList
deriving DecidableEq

structure Entry (Key : Type) extends Variant Key where
  statusCode : Nat
  reasonPhrase : Text
  requestHeaders : HeaderList
  responseBody : Text
  (requestTime responseTime : Time)
deriving DecidableEq

inductive CacheMode where
  | default
  | noStore
  | reload
  | noCache
  | forceCache
  | onlyIfCached
deriving DecidableEq

def CacheMode.permitsStaleResponses (mode : CacheMode) : Bool :=
  mode == .forceCache || mode == .onlyIfCached

/-- The URL is serialized without its fragment. -/
structure Request where
  (url method : Text)
  headers : HeaderList

structure Opening where
  request : Request
  mode : CacheMode
  /-- The clock when the lifetime and when the age of an entry is calculated. -/
  (lifetimeNow ageNow : Time)

structure Creation where
  request : Request
  requestTime : Time
  statusCode : Nat
  reasonPhrase : Text
  response : HeaderList
  now : Time

structure Finalization where
  request : Request
  statusCode : Nat
  response : HeaderList
  body : Text

inductive Call where
  | open (opening : Opening)
  | create (creation : Creation)
  | finalize (finalization : Finalization)

structure MemoryCache (Key : Type) where
  (pending complete : Table Key (List (Entry Key)))

def MemoryCache.empty {Key : Type} : MemoryCache Key := ⟨.empty, .empty⟩

section
variable {Key Value : Type} [DecidableEq Key]

def under (table : Table Key (List Value)) (key : Key) : List Value := (table.get key).getD []

def appendTo (key : Key) (value : Value) (table : Table Key (List Value)) :
    Table Key (List Value) :=
  table.set key (under table key ++ [value])

def remove (key : Key) (table : Table Key (List Value)) : Table Key (List Value) :=
  table.discard fun other _ => decide (other = key)

/-- An empty vector is removed. -/
def replace (key : Key) (values : List Value) (table : Table Key (List Value)) :
    Table Key (List Value) :=
  if values = [] then remove key table else table.set key values

section
variable (table : Table Key (List Value))

include table

theorem under_set_self {key : Key} {vals : List Value} : under (table.set key vals) key = vals := by
  unfold under
  rw [Table.get_set_self, Option.getD_some]

theorem under_set_of_ne {key other : Key} (differs : other ≠ key) {vals : List Value} :
    under (table.set key vals) other = under table other := by
  unfold under
  rw [Table.get_set_of_ne differs]

theorem under_remove_self {key : Key} : under (remove key table) key = [] := by
  unfold under
  cases left : (remove key table).get key with
  | none => rfl
  | some =>
    have kept := (Table.get_discard_eq_some_iff.mp left).2
    simp at kept

theorem under_remove_of_ne {key other : Key} (differs : other ≠ key) :
    under (remove key table) other = under table other := by
  have same : (remove key table).get other = table.get other := by
    ext vals
    rw [remove, Table.get_discard_eq_some_iff]
    simp [differs]
  unfold under
  rw [same]

theorem under_replace_self {key : Key} {vals : List Value} :
    under (replace key vals table) key = vals := by
  unfold replace
  split_ifs with none
  · rw [none]
    exact under_remove_self table
  · exact under_set_self table

theorem under_replace_of_ne {key other : Key} (differs : other ≠ key) {vals : List Value} :
    under (replace key vals table) other = under table other := by
  unfold replace
  split_ifs
  · exact under_remove_of_ne table differs
  · exact under_set_of_ne table differs

end
end

section
variable {Key : Type} [DecidableEq Key] (hashing : Hashing Key) (readers : Readers)

def Request.cacheKey (request : Request) : Key :=
  createCacheKey hashing request.url request.method none

/-! ## Opening -/

structure Opened (Stored : Type) where
  position : Nat
  entry : Stored

def findEntry {Stored : Type} (view : Stored → Variant Key) (request : HeaderList) :
    List Stored → Option (Option (Opened Stored))
  | [] => some none
  | entry :: rest =>
    match createVaryKey hashing request (view entry).responseHeaders with
    | none => none
    | some key =>
      if key = (view entry).varyKey then some (some ⟨0, entry⟩)
      else
        (findEntry view request rest).map fun found =>
          found.map fun opened => { opened with position := opened.position + 1 }

inductive Lookup (Key : Type) where
  | nothing
  | returned (opened : Opened (Entry Key))
  | expired (opened : Opened (Entry Key))

def Opening.lifetime (opening : Opening) (entry : Entry Key) : Int :=
  calculateFreshnessLifetime readers opening.lifetimeNow entry.statusCode entry.responseHeaders

def Opening.age (opening : Opening) (entry : Entry Key) : Int :=
  calculateAge readers opening.ageNow entry.responseHeaders entry.requestTime entry.responseTime

def judge (opening : Opening) (opened : Opened (Entry Key)) : Lookup Key :=
  match cacheLifetimeStatus readers opening.request.headers opened.entry.responseHeaders
      (opening.lifetime readers opened.entry) (opening.age readers opened.entry) with
  | .fresh => .returned opened
  | .expired | .mustRevalidate | .staleWhileRevalidate =>
    if opening.mode.permitsStaleResponses then .returned opened else .expired opened

def lookUp (cache : MemoryCache Key) (opening : Opening) : Option (Lookup Key) :=
  if opening.mode = .reload ∨ opening.mode = .noCache then some .nothing
  else if !isCacheableRequest opening.request.method opening.request.headers then some .nothing
  else
    (findEntry hashing Entry.toVariant opening.request.headers
      (under cache.complete (opening.request.cacheKey hashing))).map fun found =>
        match found with
        | some opened => judge readers opening opened
        | none => .nothing

def MemoryCache.openEntry (cache : MemoryCache Key) (opening : Opening) :
    Option (Option (Opened (Entry Key)) × MemoryCache Key) :=
  (lookUp hashing readers cache opening).map fun lookup =>
    match lookup with
    | .nothing => (none, cache)
    | .returned opened => (some opened, cache)
    | .expired _ =>
      (none, { cache with complete := remove (opening.request.cacheKey hashing) cache.complete })

/-! ## Creating and finalizing -/

def newEntry (creation : Creation) : Option (Entry Key) :=
  (createVaryKey hashing creation.request.headers creation.response).map fun varyKey =>
    { varyKey
      statusCode := creation.statusCode
      reasonPhrase := creation.reasonPhrase
      requestHeaders := storedFields creation.request.headers
      responseHeaders := storedFields creation.response
      responseBody := []
      requestTime := creation.requestTime
      responseTime := creation.now }

def mayStore (request : Request) (statusCode : Nat) (response : HeaderList) : Option Bool :=
  if isCacheableRequest request.method request.headers then isCacheableResponse statusCode response
  else some false

def MemoryCache.createEntry (cache : MemoryCache Key) (creation : Creation) :
    Option (MemoryCache Key) := do
  if ← mayStore creation.request creation.statusCode creation.response then
    let entry ← newEntry hashing creation
    some { cache with
      pending := appendTo (creation.request.cacheKey hashing) entry cache.pending }
  else some cache

def takePending (cache : MemoryCache Key) (finalization : Finalization) :
    Option (Option (Entry Key × List (Entry Key))) := do
  if ← mayStore finalization.request finalization.statusCode finalization.response then
    let varyKey ← createVaryKey hashing finalization.request.headers finalization.response
    let entries := under cache.pending (finalization.request.cacheKey hashing)
    let matching (entry : Entry Key) : Bool := decide (varyKey = entry.varyKey)
    match entries.find? matching with
    | some entry =>
      some (some ({ entry with responseBody := finalization.body }, entries.eraseP matching))
    | none => some none
  else some none

def MemoryCache.finalizeEntry (cache : MemoryCache Key) (finalization : Finalization) :
    Option (MemoryCache Key) :=
  (takePending hashing cache finalization).map fun taken =>
    match taken with
    | some (entry, rest) =>
      { pending := replace (finalization.request.cacheKey hashing) rest cache.pending
        complete := appendTo (finalization.request.cacheKey hashing) entry cache.complete }
    | none => cache

def MemoryCache.step (cache : MemoryCache Key) : Call → Option (MemoryCache Key)
  | .open opening => (cache.openEntry hashing readers opening).map Prod.snd
  | .create creation => cache.createEntry hashing creation
  | .finalize finalization => cache.finalizeEntry hashing finalization

/-! ## Histories -/

/-- A cache with the creations it has seen and its complete entries in the order in which they
were finalized. -/
structure Traced (Key : Type) where
  cache : MemoryCache Key
  created : List Creation
  finalized : List (Key × Entry Key)

def Traced.empty : Traced Key := ⟨.empty, [], []⟩

def Traced.recorded (traced : Traced Key) : Call → List Creation × List (Key × Entry Key)
  | .open opening =>
    match lookUp hashing readers traced.cache opening with
    | some (.expired _) =>
      (traced.created,
        traced.finalized.filter fun entry => entry.1 ≠ opening.request.cacheKey hashing)
    | _ => (traced.created, traced.finalized)
  | .create creation => (traced.created ++ [creation], traced.finalized)
  | .finalize finalization =>
    match takePending hashing traced.cache finalization with
    | some (some (entry, _)) =>
      (traced.created, traced.finalized ++ [(finalization.request.cacheKey hashing, entry)])
    | _ => (traced.created, traced.finalized)

def Traced.step (traced : Traced Key) (call : Call) : Option (Traced Key) :=
  (traced.cache.step hashing readers call).map fun cache =>
    ⟨cache, (traced.recorded hashing readers call).1, (traced.recorded hashing readers call).2⟩

end
end Ladybone.Http
