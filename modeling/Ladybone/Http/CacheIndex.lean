import Ladybone.Http.Histories

/-!
# The index of the disk cache

`CacheIndex` keeps the entries of the cache keys it has been asked for in memory and all of them
in a database, where headers are lines of text. Which rows the statements that make room remove is
left to the call.
-/

namespace Ladybone.Http

open Cookies (Text ascii)
open Support Support.Runs List

/-! ## Headers as text -/

def Header.line (header : Header) : Text := header.name ++ colon :: header.value

def serializeHeaders (list : HeaderList) : Text :=
  list.headers.flatMap fun header => header.line ++ [newline]

def parseHeader (line : Text) : Option Header :=
  let name := line.takeWhile (· != colon)
  match line.drop name.length with
  | _ :: value => some ⟨name, value⟩
  | [] => none

def readLine (stored : HeaderList) (line : Text) : HeaderList :=
  match parseHeader line with
  | some header => storeHeader stored header
  | none => stored

def deserializeHeaders (text : Text) : HeaderList := (splitView newline text).foldl readLine ⟨[]⟩

structure Header.Plain (header : Header) : Prop where
  name_colon : colon ∉ header.name
  name_newline : newline ∉ header.name
  value_newline : newline ∉ header.value

theorem parse_header_line {hdr : Header} (plain : hdr.Plain) : parseHeader hdr.line = some hdr := by
  have isName : hdr.line.takeWhile (· != colon) = hdr.name := by
    unfold Header.line
    rw [takeWhile_append_of_pos]
    · simp
    · intro byte mem
      rw [bne_iff_ne]
      exact fun isColon => plain.name_colon (isColon ▸ mem)
  unfold parseHeader
  dsimp only
  rw [isName]
  unfold Header.line
  rw [drop_left]

variable {headers : List Header}

theorem split_view_serialize_headers (plain : ∀ hdr ∈ headers, hdr.Plain) :
    splitView newline (serializeHeaders ⟨headers⟩) = headers.map Header.line := by
  induction headers with
  | nil => rfl
  | cons hdr _ ih =>
    have headerPlain := plain hdr mem_cons_self
    have noNewline : ∀ byte ∈ hdr.line, (byte == newline) = false := by
      intro byte mem
      rw [beq_eq_false_iff_ne]
      rintro rfl
      rcases mem_append.mp mem with inName | inValue
      · exact headerPlain.name_newline inName
      · rcases mem_cons.mp inValue with isColon | inValue
        · cases isColon
        · exact headerPlain.value_newline inValue
    have nonempty : hdr.line ≠ [] := by simp [Header.line]
    have restSplit := ih fun other mem => plain other (mem_cons_of_mem _ mem)
    unfold splitView serializeHeaders List.splitOn at restSplit ⊢
    rw [flatMap_cons, append_assoc, singleton_append,
      splitOnP_append_cons_of_forall_mem noNewline newline (beq_self_eq_true _),
      filter_cons, if_pos (decide_eq_true nonempty), restSplit, map_cons]

theorem foldl_read_line (plain : ∀ hdr ∈ headers, hdr.Plain) (stored : HeaderList) :
    (headers.map Header.line).foldl readLine stored = headers.foldl storeHeader stored := by
  induction headers generalizing stored with
  | nil => rfl
  | cons hdr _ ih =>
    rw [map_cons, foldl_cons, readLine, parse_header_line (plain hdr mem_cons_self)]
    exact ih (fun other mem => plain other (mem_cons_of_mem _ mem)) _

theorem deserialize_serialize_headers {list : HeaderList}
    (plain : ∀ hdr ∈ list.headers, hdr.Plain) :
    deserializeHeaders (serializeHeaders list) = storedFields list := by
  unfold deserializeHeaders storedFields
  rw [split_view_serialize_headers plain, foldl_read_line plain]

/-! ## The index -/

structure IndexEntry (Key : Type) extends Variant Key where
  url : Text
  requestHeaders : HeaderList
  (dataSize associatedDataSize : Nat)
  (requestTime responseTime lastAccessTime : Time)

/-- A row of the table, without its two keys. -/
structure Row where
  (url requestHeaders responseHeaders : Text)
  (dataSize associatedDataSize : Nat)
  (requestTime responseTime lastAccessTime : Time)

structure CacheIndex (Key : Type) where
  entries : Table Key (List (IndexEntry Key))
  database : Table (Key × Key) Row

/-- A response on its way into the cache. The vary key is made from the headers when they are
complete, the entry from what the headers are when the body is. -/
structure Writing (Key : Type) where
  cacheKey : Key
  url : Text
  (request response flushedRequest flushedResponse : HeaderList)
  dataSize : Nat
  (requestTime responseTime now : Time)

inductive IndexCall (Key : Type) where
  | write (writing : Writing Key)
  | updateResponseHeaders (cacheKey varyKey : Key) (response : HeaderList)
  | updateAssociatedDataSize (cacheKey varyKey : Key) (size : Nat)
  | updateLastAccessTime (cacheKey varyKey : Key) (now : Time)
  | removeEntry (cacheKey varyKey : Key)
  | removeEntries (chosen : Key × Key → Row → Bool)
  | find (cacheKey : Key) (request : HeaderList)
  | restart

section
variable {Key : Type} [DecidableEq Key] (hashing : Hashing Key)

def removeExemptedHeaders (list : HeaderList) : HeaderList :=
  ⟨list.headers.filter fun header => !isHeaderExemptedFromStorage header.name⟩

def IndexEntry.row (entry : IndexEntry Key) : Row where
  url := entry.url
  requestHeaders := serializeHeaders entry.requestHeaders
  responseHeaders := serializeHeaders entry.responseHeaders
  dataSize := entry.dataSize
  associatedDataSize := entry.associatedDataSize
  requestTime := entry.requestTime
  responseTime := entry.responseTime
  lastAccessTime := entry.lastAccessTime

def Row.entry (varyKey : Key) (row : Row) : IndexEntry Key where
  varyKey
  responseHeaders := deserializeHeaders row.responseHeaders
  url := row.url
  requestHeaders := deserializeHeaders row.requestHeaders
  dataSize := row.dataSize
  associatedDataSize := row.associatedDataSize
  requestTime := row.requestTime
  responseTime := row.responseTime
  lastAccessTime := row.lastAccessTime

def IndexEntry.estimatedSize (entry : IndexEntry Key) : Nat :=
  entry.dataSize + entry.associatedDataSize + entry.row.requestHeaders.length +
    entry.row.responseHeaders.length

def putEntry (entry : IndexEntry Key) : List (IndexEntry Key) → List (IndexEntry Key)
  | [] => [entry]
  | other :: rest =>
    if other.varyKey = entry.varyKey then entry :: rest else other :: putEntry entry rest

def Writing.entry (writing : Writing Key) (varyKey : Key) : IndexEntry Key where
  varyKey
  responseHeaders := removeExemptedHeaders writing.flushedResponse
  url := writing.url
  requestHeaders := removeExemptedHeaders writing.flushedRequest
  dataSize := writing.dataSize
  associatedDataSize := 0
  requestTime := writing.requestTime
  responseTime := writing.responseTime
  lastAccessTime := writing.now

namespace CacheIndex

def empty : CacheIndex Key := ⟨.empty, .empty⟩

/-- `create_entry`; an entry that is too large is an error and changes nothing. -/
def createEntry (maximumEntrySize : Nat) (cacheKey : Key) (entry : IndexEntry Key)
    (index : CacheIndex Key) : CacheIndex Key :=
  if maximumEntrySize < entry.estimatedSize then index
  else
    { entries := index.entries.set cacheKey (putEntry entry (under index.entries cacheKey))
      database := index.database.set (cacheKey, entry.varyKey) entry.row }

/-- Applies a change to an entry that is in memory, and to its row. -/
def update (cacheKey varyKey : Key) (change : IndexEntry Key → IndexEntry Key)
    (changeRow : Row → Row) (index : CacheIndex Key) : CacheIndex Key :=
  match (under index.entries cacheKey).find? fun entry => entry.varyKey = varyKey with
  | none => index
  | some entry =>
    { entries := index.entries.set cacheKey
        (putEntry (change entry) (under index.entries cacheKey))
      database :=
        match index.database.get (cacheKey, varyKey) with
        | some row => index.database.set (cacheKey, varyKey) (changeRow row)
        | none => index.database }

def deleteEntry (cacheKey varyKey : Key) (entries : Table Key (List (IndexEntry Key))) :
    Table Key (List (IndexEntry Key)) :=
  replace cacheKey
    ((under entries cacheKey).eraseP fun entry => decide (entry.varyKey = varyKey)) entries

/-- The entries of a cache key, read from the database if they are not in memory. -/
def load (cacheKey : Key) (index : CacheIndex Key) : List (IndexEntry Key) × CacheIndex Key :=
  match index.entries.get cacheKey with
  | some entries => (entries, index)
  | none =>
    let rows := index.database.entries.filter fun row => row.1.1 = cacheKey
    let entries := rows.map fun row => row.2.entry row.1.2
    (entries, { index with entries := index.entries.set cacheKey entries })

def findEntry (cacheKey : Key) (request : HeaderList) (index : CacheIndex Key) :
    Option (Option (Opened (IndexEntry Key)) × CacheIndex Key) :=
  let (entries, next) := index.load cacheKey
  (Http.findEntry hashing IndexEntry.toVariant request entries).map fun found => (found, next)

def step (maximumEntrySize : Nat) (index : CacheIndex Key) : IndexCall Key → Option (CacheIndex Key)
  | .write writing => do
      let varyKey ← createVaryKey hashing writing.request writing.response
      some (index.createEntry maximumEntrySize writing.cacheKey (writing.entry varyKey))
  | .updateResponseHeaders cacheKey varyKey response =>
    some (index.update cacheKey varyKey (fun entry => { entry with responseHeaders := response })
      fun row => { row with responseHeaders := serializeHeaders response })
  | .updateAssociatedDataSize cacheKey varyKey size =>
    some (index.update cacheKey varyKey (fun entry => { entry with associatedDataSize := size })
      fun row => { row with associatedDataSize := size })
  | .updateLastAccessTime cacheKey varyKey now =>
    some (index.update cacheKey varyKey (fun entry => { entry with lastAccessTime := now })
      fun row => { row with lastAccessTime := now })
  | .removeEntry cacheKey varyKey =>
    some
      { entries := deleteEntry cacheKey varyKey index.entries
        database := index.database.discard fun key _ => decide (key = (cacheKey, varyKey)) }
  | .removeEntries chosen =>
    some
      { entries := (index.database.entries.filter fun row => chosen row.1 row.2).foldl
          (fun entries row => deleteEntry row.1.1 row.1.2 entries) index.entries
        database := index.database.discard chosen }
  | .find cacheKey request => (index.findEntry hashing cacheKey request).map Prod.snd
  | .restart => some { index with entries := .empty }

end CacheIndex

/-- An index with the response that was last stored under a cache key and a vary key. -/
structure TracedIndex (Key : Type) where
  index : CacheIndex Key
  written : Table (Key × Key) (Writing Key)

def TracedIndex.empty : TracedIndex Key := ⟨.empty, .empty⟩

def TracedIndex.recorded (maximumEntrySize : Nat) (traced : TracedIndex Key) :
    IndexCall Key → Table (Key × Key) (Writing Key)
  | .write writing =>
    match createVaryKey hashing writing.request writing.response with
    | some varyKey =>
      if maximumEntrySize < (writing.entry varyKey).estimatedSize then traced.written
      else traced.written.set (writing.cacheKey, varyKey) writing
    | none => traced.written
  | _ => traced.written

def TracedIndex.step (maximumEntrySize : Nat) (traced : TracedIndex Key) (call : IndexCall Key) :
    Option (TracedIndex Key) :=
  (traced.index.step hashing maximumEntrySize call).map fun index =>
    ⟨index, traced.recorded hashing maximumEntrySize call⟩

end

/-! ## Where entries come from -/

section
variable {Key : Type} [DecidableEq Key] {hashing : Hashing Key}

def IndexEntry.MadeFrom (writing : Writing Key) (entry : IndexEntry Key) : Prop :=
  entry.url = writing.url ∧ entry.dataSize = writing.dataSize ∧
    entry.requestTime = writing.requestTime ∧ entry.responseTime = writing.responseTime

/-- The entry comes from the last response under its keys, and nominates the names that one did. -/
def Genuine (hashing : Hashing Key) (written : Table (Key × Key) (Writing Key)) (cacheKey : Key)
    (entry : IndexEntry Key) : Prop :=
  ∃ writing, written.get (cacheKey, entry.varyKey) = some writing ∧ entry.MadeFrom writing ∧
    createVaryKey hashing writing.request writing.response = some entry.varyKey ∧
    varyNames entry.responseHeaders = varyNames writing.response

def keyed (entries : List (IndexEntry Key)) : List (Key × IndexEntry Key) :=
  entries.map fun entry => (entry.varyKey, entry)

structure AllGenuine (hashing : Hashing Key) (traced : TracedIndex Key) : Prop where
  distinct : ∀ cacheKey, ((keyed (under traced.index.entries cacheKey)).map Prod.fst).Nodup
  entries : ∀ cacheKey, ∀ entry ∈ under traced.index.entries cacheKey,
    Genuine hashing traced.written cacheKey entry
  database : ∀ cacheKey varyKey row, traced.index.database.get (cacheKey, varyKey) = some row →
    Genuine hashing traced.written cacheKey (row.entry varyKey)

/-- The headers nominate these names, in memory and when they come back from the database. -/
def Nominates (names : Option (List Text)) (list : HeaderList) : Prop :=
  varyNames list = names ∧ varyNames (deserializeHeaders (serializeHeaders list)) = names

/-- The entry nominates the names its vary key was made with. -/
def Writing.KeepsVary (writing : Writing Key) : Prop :=
  Nominates (varyNames writing.response) (removeExemptedHeaders writing.flushedResponse)

/-- No call makes an entry nominate other names than its vary key was made with. -/
def KeepsVary (traced : TracedIndex Key) : IndexCall Key → Prop
  | .write writing => writing.KeepsVary
  | .updateResponseHeaders cacheKey varyKey response =>
    ∀ entry ∈ under traced.index.entries cacheKey, entry.varyKey = varyKey →
      Nominates (varyNames entry.responseHeaders) response
  | _ => True

theorem vary_names_remove_exempted_headers {list : HeaderList} :
    varyNames (removeExemptedHeaders list) = varyNames list := by
  have sameValues : (removeExemptedHeaders list).values varyName = list.values varyName := by
    unfold removeExemptedHeaders HeaderList.values
    rw [filter_filter]
    congr 1
    refine filter_congr fun hdr _ => ?_
    cases isVary : Header.isNamed varyName hdr with
    | false => rfl
    | true => rw [not_exempted_of_is_named_vary isVary]; rfl
  unfold varyNames varyFields
  rw [sameValues]

variable {traced : TracedIndex Key} {writing : Writing Key} {cacheKey other varyKey : Key}
  {entry added : IndexEntry Key} {entries : Table Key (List (IndexEntry Key))}
  (genuine : AllGenuine hashing traced)

omit [DecidableEq Key] in
theorem write_keeps_vary (writing : Writing Key)
    (unchanged : writing.flushedResponse = writing.response)
    (plain : ∀ hdr ∈ writing.response.headers, hdr.Plain) : writing.KeepsVary := by
  have plainLeft : ∀ hdr ∈ (removeExemptedHeaders writing.response).headers, hdr.Plain :=
    fun hdr mem => plain hdr (mem_of_mem_filter mem)
  unfold Writing.KeepsVary Nominates
  rw [unchanged, deserialize_serialize_headers plainLeft, vary_names_stored]
  exact ⟨vary_names_remove_exempted_headers, vary_names_remove_exempted_headers⟩

def plainWriting (request response : HeaderList) : Writing (Option Text) where
  cacheKey := none
  url := []
  request
  response
  flushedRequest := request
  flushedResponse := response
  dataSize := 0
  requestTime := 0
  responseTime := 0
  now := 0

theorem plain_write_keeps_vary : (plainWriting ⟨[]⟩ ⟨[
    ⟨ascii ['C', 'o', 'n', 'n', 'e', 'c', 't', 'i', 'o', 'n'], ascii ['x']⟩,
    ⟨varyName, ascii ['X']⟩, ⟨varyName, ascii [' ', 'Y', ',', 'Z']⟩]⟩).KeepsVary := by
  refine write_keeps_vary _ rfl ?_
  simp only [plainWriting, forall_mem_cons, not_mem_nil]
  refine ⟨?_, ?_, ?_, nofun⟩
  all_goals constructor <;> decide

omit [DecidableEq Key] in
theorem keyed_keys (entries : List (IndexEntry Key)) :
    (keyed entries).map Prod.fst = entries.map fun entry => entry.varyKey :=
  map_map

theorem keyed_put_entry {entries : List (IndexEntry Key)} :
    keyed (putEntry added entries) = Table.put added.varyKey added (keyed entries) := by
  induction entries with
  | nil => rfl
  | cons other _ ih =>
    simp only [putEntry, keyed, map_cons, Table.put] at ih ⊢
    split_ifs
    · rfl
    · rw [map_cons, ih]

theorem mem_put_entry {entries : List (IndexEntry Key)}
    (distinct : ((keyed entries).map Prod.fst).Nodup) (mem : entry ∈ putEntry added entries) :
    entry = added ∨ entry ∈ entries ∧ entry.varyKey ≠ added.varyKey := by
  have found : Table.find entry.varyKey (keyed (putEntry added entries)) = some entry := by
    rw [keyed_put_entry, Table.find_eq_some_iff (Table.nodup_put distinct), ← keyed_put_entry]
    exact mem_map_of_mem mem
  rw [keyed_put_entry] at found
  by_cases same : entry.varyKey = added.varyKey
  · rw [same, Table.find_put_self, Option.some.injEq] at found
    exact .inl found.symm
  · rw [Table.find_put_of_ne same, Table.find_eq_some_iff distinct] at found
    obtain ⟨held, isHeld, isEntry⟩ := mem_map.mp found
    rw [← (Prod.mk.inj isEntry).2]
    exact .inr ⟨isHeld, (Prod.mk.inj isEntry).1 ▸ same⟩

include genuine in
theorem mem_under_put_entry (mem : entry ∈ under (traced.index.entries.set cacheKey
      (putEntry added (under traced.index.entries cacheKey))) other) :
    other = cacheKey ∧ entry = added ∨ entry ∈ under traced.index.entries other ∧
      (other, entry.varyKey) ≠ (cacheKey, added.varyKey) := by
  by_cases same : other = cacheKey
  · rw [same, under_set_self] at mem
    rcases mem_put_entry (genuine.distinct cacheKey) mem with isAdded | ⟨before, differs⟩
    · exact .inl ⟨same, isAdded⟩
    · exact .inr ⟨same ▸ before, fun alike => differs (Prod.mk.inj alike).2⟩
  · rw [under_set_of_ne _ same] at mem
    exact .inr ⟨mem, fun alike => same (Prod.mk.inj alike).1⟩

include genuine in
theorem distinct_put_entry :
    ((keyed (under (traced.index.entries.set cacheKey
      (putEntry added (under traced.index.entries cacheKey))) other)).map Prod.fst).Nodup := by
  by_cases same : other = cacheKey
  · rw [same, under_set_self, keyed_put_entry]
    exact Table.nodup_put (genuine.distinct cacheKey)
  · rw [under_set_of_ne _ same]
    exact genuine.distinct other

theorem get_set_cases {Row : Type} {table : Table (Key × Key) Row} {key other : Key × Key}
    {row added : Row} (found : (table.set key added).get other = some row) :
    other = key ∧ row = added ∨ table.get other = some row ∧ other ≠ key := by
  by_cases same : other = key
  · rw [same, Table.get_set_self, Option.some.injEq] at found
    exact .inl ⟨same, found.symm⟩
  · rw [Table.get_set_of_ne same] at found
    exact .inr ⟨found, same⟩

theorem Genuine.set_of_ne {written : Table (Key × Key) (Writing Key)}
    (genuine : Genuine hashing written cacheKey entry) {key : Key × Key}
    (differs : (cacheKey, entry.varyKey) ≠ key) :
    Genuine hashing (written.set key writing) cacheKey entry := by
  obtain ⟨source, isLast, properties⟩ := genuine
  exact ⟨source, (Table.get_set_of_ne differs).trans isLast, properties⟩

include genuine in
theorem all_genuine_write {maximumEntrySize : Nat}
    (isKey : createVaryKey hashing writing.request writing.response = some varyKey)
    (keeps : writing.KeepsVary) :
    AllGenuine hashing
      ⟨traced.index.createEntry maximumEntrySize writing.cacheKey (writing.entry varyKey),
        traced.recorded hashing maximumEntrySize (.write writing)⟩ := by
  simp only [CacheIndex.createEntry, TracedIndex.recorded, isKey]
  split_ifs
  · exact genuine
  · have isLast : (traced.written.set (writing.cacheKey, varyKey) writing).get
        (writing.cacheKey, varyKey) = some writing := Table.get_set_self
    refine ⟨fun other => distinct_put_entry genuine, ?_, ?_⟩
    · intro cacheKey entry mem
      rcases mem_under_put_entry genuine mem with ⟨rfl, rfl⟩ | ⟨before, differs⟩
      · exact ⟨writing, isLast, ⟨rfl, rfl, rfl, rfl⟩, isKey, keeps.1⟩
      · exact (genuine.entries cacheKey entry before).set_of_ne differs
    · intro cacheKey other row found
      rcases get_set_cases found with ⟨same, rfl⟩ | ⟨before, differs⟩
      · obtain ⟨rfl, rfl⟩ := Prod.mk.inj same
        exact ⟨writing, isLast, ⟨rfl, rfl, rfl, rfl⟩, isKey, keeps.2⟩
      · exact (genuine.database cacheKey other row before).set_of_ne differs

include genuine in
theorem all_genuine_update {change : IndexEntry Key → IndexEntry Key} {changeRow : Row → Row}
    (changed : ∀ entry ∈ under traced.index.entries cacheKey, entry.varyKey = varyKey →
      Genuine hashing traced.written cacheKey (change entry))
    (changedRow : ∀ row entry, traced.index.database.get (cacheKey, varyKey) = some row →
      entry ∈ under traced.index.entries cacheKey → entry.varyKey = varyKey →
      Genuine hashing traced.written cacheKey ((changeRow row).entry varyKey)) :
    AllGenuine hashing ⟨traced.index.update cacheKey varyKey change changeRow, traced.written⟩ := by
  unfold CacheIndex.update
  split
  · exact genuine
  · rename_i held found
    have isHeld := mem_of_find?_eq_some found
    have isVary := find?_some found
    have heldKey : held.varyKey = varyKey := of_decide_eq_true isVary
    refine ⟨fun other => distinct_put_entry genuine, ?_, ?_⟩
    · intro other entry mem
      rcases mem_under_put_entry genuine mem with ⟨rfl, rfl⟩ | ⟨before, -⟩
      · exact changed held isHeld heldKey
      · exact genuine.entries other entry before
    · intro other otherVary row rowFound
      split at rowFound
      · rename_i old oldFound
        rcases get_set_cases rowFound with ⟨same, rfl⟩ | ⟨before, -⟩
        · obtain ⟨rfl, rfl⟩ := Prod.mk.inj same
          exact changedRow old held oldFound isHeld heldKey
        · exact genuine.database other otherVary row before
      · exact genuine.database other otherVary row rowFound

theorem under_delete_entry :
    (under (CacheIndex.deleteEntry cacheKey varyKey entries) other).Sublist
      (under entries other) := by
  unfold CacheIndex.deleteEntry
  by_cases same : other = cacheKey
  · rw [same, under_replace_self]
    exact eraseP_sublist
  · rw [under_replace_of_ne _ same]

theorem under_delete_entries {Rows : Type} {rows : List ((Key × Key) × Rows)} :
    (under (rows.foldl (fun entries row => CacheIndex.deleteEntry row.1.1 row.1.2 entries) entries)
      other).Sublist (under entries other) := by
  induction rows generalizing entries with
  | nil => exact Sublist.refl _
  | cons _ _ ih => exact ih.trans under_delete_entry

include genuine in
theorem all_genuine_of_fewer {index : CacheIndex Key}
    (fewer : ∀ other, (under index.entries other).Sublist (under traced.index.entries other))
    (rows : ∀ key row, index.database.get key = some row →
      traced.index.database.get key = some row) : AllGenuine hashing ⟨index, traced.written⟩ where
  distinct other := (genuine.distinct other).sublist (((fewer other).map _).map _)
  entries other entry mem := genuine.entries other entry ((fewer other).subset mem)
  database cacheKey varyKey row found := genuine.database cacheKey varyKey row (rows _ row found)

theorem distinct_rows {database : Table (Key × Key) Row} :
    ((keyed ((database.entries.filter fun row => row.1.1 = cacheKey).map
      fun row => row.2.entry row.1.2)).map Prod.fst).Nodup := by
  have keys := database.distinct.sublist
    ((filter_sublist (p := fun row => decide (row.1.1 = cacheKey))).map Prod.fst)
  have paired : ((database.entries.filter fun row => row.1.1 = cacheKey).map Prod.fst) =
      ((keyed ((database.entries.filter fun row => row.1.1 = cacheKey).map
        fun row => row.2.entry row.1.2)).map Prod.fst).map fun varyKey => (cacheKey, varyKey) := by
    rw [keyed_keys, map_map, map_map]
    refine map_congr_left fun row mem => ?_
    exact Prod.ext (of_decide_eq_true (mem_filter.mp mem).2) rfl
  rw [paired] at keys
  exact keys.of_map _

include genuine in
theorem load_genuine :
    (∀ entry ∈ (traced.index.load cacheKey).1,
      Genuine hashing traced.written cacheKey entry) ∧
    AllGenuine hashing ⟨(traced.index.load cacheKey).2, traced.written⟩ := by
  unfold CacheIndex.load
  split
  · rename_i entries found
    refine ⟨fun entry mem => genuine.entries cacheKey entry ?_, genuine⟩
    unfold under
    rwa [found]
  · -- the rows of the key, read back
    have fromRows : ∀ entry ∈ (traced.index.database.entries.filter
        fun row => row.1.1 = cacheKey).map (fun row => row.2.entry row.1.2),
        Genuine hashing traced.written cacheKey entry := by
      intro entry mem
      obtain ⟨⟨⟨key, varyKey⟩, row⟩, isRow, rfl⟩ := mem_map.mp mem
      obtain ⟨inTable, isKey⟩ := mem_filter.mp isRow
      cases of_decide_eq_true isKey
      exact genuine.database _ varyKey row (Table.get_eq_some_iff.mpr inTable)
    refine ⟨fromRows, fun other => ?_, ?_, genuine.database⟩
    · by_cases same : other = cacheKey
      · rw [same, under_set_self]
        exact distinct_rows
      · rw [under_set_of_ne _ same]
        exact genuine.distinct other
    intro other entry mem
    by_cases same : other = cacheKey
    · rw [same, under_set_self] at mem
      exact same ▸ fromRows entry mem
    · rw [under_set_of_ne _ same] at mem
      exact genuine.entries other entry mem

include genuine in
theorem all_genuine_step {maximumEntrySize : Nat} {next : TracedIndex Key} {call : IndexCall Key}
    (keeps : KeepsVary traced call)
    (stepped : traced.step hashing maximumEntrySize call = some next) :
    AllGenuine hashing next := by
  obtain ⟨index, indexStepped, rfl⟩ := Option.map_eq_some_iff.mp stepped
  cases call with
  | write =>
    obtain ⟨varyKey, isKey, done⟩ := Option.bind_eq_some_iff.mp indexStepped
    cases done
    exact all_genuine_write genuine isKey keeps
  | updateResponseHeaders cacheKey =>
    cases indexStepped
    refine all_genuine_update genuine ?_ ?_
    · intro entry mem isVary
      obtain ⟨writing, isLast, made, isKey, sameNames⟩ := genuine.entries cacheKey entry mem
      exact ⟨writing, isLast, made, isKey, (keeps entry mem isVary).1.trans sameNames⟩
    · intro row entry found mem isVary
      obtain ⟨writing, isLast, made, isKey, -⟩ := genuine.database cacheKey _ row found
      obtain ⟨other, alsoLast, -, -, sameNames⟩ := genuine.entries cacheKey entry mem
      rw [isVary] at alsoLast
      cases isLast.symm.trans alsoLast
      exact ⟨writing, isLast, made, isKey, (keeps entry mem isVary).2.trans sameNames⟩
  | updateAssociatedDataSize cacheKey varyKey | updateLastAccessTime cacheKey varyKey =>
    cases indexStepped
    exact all_genuine_update genuine (fun entry mem _ => genuine.entries cacheKey entry mem)
      fun row _ found _ _ => genuine.database cacheKey varyKey row found
  | removeEntry =>
    cases indexStepped
    exact all_genuine_of_fewer genuine (fun other => under_delete_entry)
      fun key row found => (Table.get_discard_eq_some_iff.mp found).1
  | removeEntries =>
    cases indexStepped
    exact all_genuine_of_fewer genuine (fun other => under_delete_entries)
      fun key row found => (Table.get_discard_eq_some_iff.mp found).1
  | find cacheKey =>
    obtain ⟨result, found, rfl⟩ := Option.map_eq_some_iff.mp indexStepped
    obtain ⟨opened, -, rfl⟩ := Option.map_eq_some_iff.mp found
    exact (load_genuine genuine).2
  | restart =>
    cases indexStepped
    exact all_genuine_of_fewer genuine (fun _ => nil_sublist _) fun _ _ found => found

theorem all_genuine_run {maximumEntrySize : Nat}
    (run : Execution (TracedIndex.step hashing maximumEntrySize) KeepsVary .empty traced) :
    AllGenuine hashing traced := by
  refine run.invariant (AllGenuine hashing) ?_ ?_
  · exact ⟨fun _ => nodup_nil, fun _ _ member => (not_mem_nil member).elim,
      fun _ _ _ found => nomatch found⟩
  · intro before call after genuine keeps stepped
    exact all_genuine_step genuine keeps stepped

end

/-! ## Selection by `Vary` -/

/-- A later request gets an entry in spite of other values for a nominated header in exactly the
cases in which the normalized values differ in length somewhere: over every history of the memory
cache, and over every history of the index whose calls leave the nominated names alone. -/
theorem vary_respected_iff_same_lengths {Key : Type} [DecidableEq Key] (hashing : Hashing Key)
    (injective : Function.Injective hashing.digest) :
    (∀ (readers : Readers) (traced : Traced Key),
      Execution (Traced.step hashing readers) Unrestricted .empty traced → ∀ opening opened next,
        traced.cache.openEntry hashing readers opening = some (some opened, next) →
        ∃ creation ∈ traced.created,
          creation.request.cacheKey hashing = opening.request.cacheKey hashing ∧
          MadeBy hashing creation opened.entry ∧ ∃ names, varyNames creation.response = some names ∧
            (AgreeOn names creation.request.headers opening.request.headers ↔
              SameLengths names creation.request.headers opening.request.headers)) ∧
    (∀ (maximumEntrySize : Nat) (traced : TracedIndex Key),
      Execution (TracedIndex.step hashing maximumEntrySize) KeepsVary .empty traced →
      ∀ cacheKey request opened next,
        traced.index.findEntry hashing cacheKey request = some (some opened, next) →
        ∃ writing, traced.written.get (cacheKey, opened.entry.varyKey) = some writing ∧
          opened.entry.MadeFrom writing ∧
          ∃ names, varyNames opened.entry.responseHeaders = some names ∧
            (AgreeOn names writing.request request ↔
              SameLengths names writing.request request)) := by
  refine ⟨?_, ?_⟩
  · intro readers traced run opening opened next done
    obtain ⟨there, matching, -⟩ := find_entry_spec (look_up_spec (open_entry_returned done) rfl)
    obtain ⟨creation, isKnown, sameKey, made⟩ :=
      has_origin_run run _ opened.entry (.inr (mem_of_getElem? there))
    refine ⟨creation, isKnown, sameKey, made, ?_⟩
    obtain ⟨varyKey, isKey, isEntry⟩ := Option.map_eq_some_iff.mp made
    have sameKeys : varyKey = opened.entry.varyKey :=
      congrArg (fun entry : Entry Key => entry.varyKey) isEntry
    have stored : storedFields creation.response = opened.entry.responseHeaders :=
      congrArg (fun entry : Entry Key => entry.responseHeaders) isEntry
    obtain ⟨names, nominated, -⟩ := Option.map_eq_some_iff.mp isKey
    refine ⟨names, nominated, agree_on_iff_same_lengths injective nominated ?_ isKey
      (matching.trans (congrArg some sameKeys.symm))⟩
    rw [← stored, vary_names_stored, nominated]
  · intro maximumEntrySize traced run cacheKey request opened next done
    obtain ⟨result, found, same⟩ := Option.map_eq_some_iff.mp done
    cases same
    obtain ⟨there, matching, -⟩ := find_entry_spec found
    obtain ⟨writing, isLast, made, isKey, sameNames⟩ :=
      (load_genuine (all_genuine_run run)).1 opened.entry (mem_of_getElem? there)
    obtain ⟨names, nominated, -⟩ := Option.map_eq_some_iff.mp isKey
    exact ⟨writing, isLast, made, names, sameNames.trans nominated,
      agree_on_iff_same_lengths injective nominated (sameNames.trans nominated) isKey matching⟩

def varyingResponse : HeaderList :=
  ⟨[⟨cacheControlName, maxAge ++ ascii ['=', '9']⟩, ⟨varyName, ascii ['X', ',', 'Y']⟩]⟩

def withY (value : Char) : Request := plainRequest [⟨ascii ['Y'], ascii [value]⟩]

def revaluedHistory : List (IndexCall (Option Text)) :=
  [.write (plainWriting (withX 'a').headers ⟨[⟨varyName, ascii ['X']⟩]⟩),
    .updateResponseHeaders none (some (ascii ['a', '\n'])) ⟨[⟨varyName, ascii ['Y']⟩]⟩]

/-- A response for `X: a` is returned for `Y: a`: by the memory cache if it varies by both, and by
the index if it varied by `X` and came to vary by `Y`. -/
theorem vary_confuses_headers :
    (∃ traced opened next,
      Execution (Traced.step plainHashing plainReaders) Unrestricted .empty traced ∧
      traced.created.map (fun creation => creation.request.headers) = [(withX 'a').headers] ∧
      traced.cache.openEntry plainHashing plainReaders (plainOpening (withY 'a') 2) =
        some (some opened, next) ∧
      ∃ names, varyNames varyingResponse = some names ∧
        ¬ AgreeOn names (withX 'a').headers (withY 'a').headers) ∧
    ∃ traced opened next, Execution (TracedIndex.step plainHashing 100) Unrestricted .empty traced ∧
      traced.index.findEntry plainHashing none (withY 'a').headers = some (some opened, next) ∧
      (traced.written.get (none, opened.entry.varyKey)).map Writing.request =
        some (withX 'a').headers ∧
      ¬ AgreeOn [ascii ['X']] (withX 'a').headers (withY 'a').headers := by
  refine ⟨⟨_, _, _, Execution.of_actions [.create (plainCreation (withX 'a') varyingResponse),
      .finalize (plainFinalization (withX 'a') varyingResponse [])] rfl, rfl, rfl, _, rfl, ?_⟩,
    ⟨_, _, _, Execution.of_actions revaluedHistory rfl,
      rfl, rfl, ?_⟩⟩
  all_goals
    intro agree
    have same := agree (ascii ['X']) (by decide)
    revert same
    decide

def withYAndZ : Request :=
  plainRequest [⟨ascii ['Z'], ascii ['c']⟩, ⟨ascii ['Y'], ascii ['a']⟩]

theorem other_header_respects_vary :
    (∃ traced opened next,
      followCalls [.create (plainCreation (withY 'a') varyingResponse),
        .finalize (plainFinalization (withY 'a') varyingResponse [])] = some traced ∧
      traced.cache.openEntry plainHashing plainReaders (plainOpening withYAndZ 2) =
        some (some opened, next) ∧
      AgreeOn [ascii ['X'], ascii ['Y']] (withY 'a').headers withYAndZ.headers) ∧
    ∃ traced opened next,
      Execution (TracedIndex.step plainHashing 100) KeepsVary .empty traced ∧
      traced.index.findEntry plainHashing none withYAndZ.headers = some (some opened, next) ∧
      ∃ writing, traced.written.get (none, opened.entry.varyKey) = some writing ∧
        writing.request = (withY 'a').headers ∧
        AgreeOn [ascii ['X'], ascii ['Y']] writing.request withYAndZ.headers := by
  obtain ⟨memory, index⟩ :=
    vary_respected_iff_same_lengths plainHashing (fun _ _ same => Option.some.inj same)
  have sameLengths : SameLengths [ascii ['X'], ascii ['Y']] (withY 'a').headers
      withYAndZ.headers := by
    unfold SameLengths
    decide
  constructor
  · refine ⟨_, _, _, rfl, rfl, ?_⟩
    obtain ⟨creation, isKnown, -, -, names, nominated, agree⟩ :=
      memory plainReaders _ (Execution.of_actions [.create (plainCreation (withY 'a')
        varyingResponse), .finalize (plainFinalization (withY 'a') varyingResponse [])] rfl)
        (plainOpening withYAndZ 2) _ _ rfl
    cases mem_singleton.mp isKnown
    cases nominated
    exact agree.mpr sameLengths
  · have keeps (request : HeaderList) : (plainWriting request varyingResponse).KeepsVary :=
      ⟨rfl, rfl⟩
    -- the second response takes the place of the first, then the next process reads it
    have run : Execution (TracedIndex.step plainHashing 100) KeepsVary .empty _ :=
      Execution.tail .restart (Execution.tail
        (.write (plainWriting (withY 'a').headers varyingResponse)) (Execution.tail
          (.write (plainWriting (withX 'a').headers varyingResponse)) .refl (keeps _) rfl)
        (keeps _) rfl) trivial rfl
    refine ⟨_, _, _, run, rfl, ?_⟩
    obtain ⟨writing, isLast, -, names, nominated, agree⟩ :=
      index 100 _ run none withYAndZ.headers _ _ rfl
    cases isLast
    cases nominated
    exact ⟨_, rfl, rfl, agree.mpr sameLengths⟩

end Ladybone.Http
