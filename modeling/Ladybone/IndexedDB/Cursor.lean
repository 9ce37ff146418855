import Ladybone.IndexedDB.ObjectStore
import Mathlib.Data.Finset.Card

/-!
# Iterating a cursor

`iterate_a_cursor` over an object store or one of its indexes. A failed
`VERIFY` and a dereferenced empty pointer are `none`. The value is kept
serialized. `found` lives across the rounds of one call, as `found_record` does.
-/

namespace Ladybone.IndexedDB

open Option

variable {Data : Type}

inductive IDBCursorDirection where
  | next
  | nextunique
  | prev
  | prevunique
deriving DecidableEq

inductive CursorSource where
  | objectStore
  | index (ref : IndexRef)

inductive SourceRecord (Data : Type) where
  | objectStore (record : ObjectStoreRecord Data)
  | index (record : IndexRecord)

def SourceRecord.key : SourceRecord Data → Key
  | .objectStore record => record.key
  | .index record => record.key

structure IDBCursor (Data : Type) where
  source : CursorSource
  direction : IDBCursorDirection
  range : IDBKeyRange
  (position objectStorePosition key : Option Key)
  value : Option Data
  (gotValue keyOnly : Bool)

def CursorSource.records (store : ObjectStore Data) : CursorSource → List (SourceRecord Data)
  | .objectStore => store.records.map .objectStore
  | .index ref => (store.index ref).records.map .index

namespace IDBCursor

def equals (a b : Key) : Bool := decide (KeyOf.compareTwoKeys a b = 0)

def lessThan (a b : Key) : Bool := decide (KeyOf.compareTwoKeys a b < 0)

def greaterThan (a b : Key) : Bool := decide (0 < KeyOf.compareTwoKeys a b)

def lessThanOrEqual (a b : Key) : Bool := decide (KeyOf.compareTwoKeys a b ≤ 0)

def greaterThanOrEqual (a b : Key) : Bool := decide (0 ≤ KeyOf.compareTwoKeys a b)

/-! ## The search of one round -/

structure Search where
  range : IDBKeyRange
  (key primaryKey position objectStorePosition : Option Key)

/-- A requirement on an optional operand; an absent one asks nothing. -/
def whenGiven (operand : Option Key) (test : Key → Option Bool) : Option Bool :=
  match operand with
  | none => some true
  | some given => test given

/-- An early `return false` skips what follows. -/
def andThen (first second : Option Bool) : Option Bool :=
  match first with
  | some true => second
  | stopped => stopped

def requirements (atOrPast past : Key → Key → Bool) (search : Search)
    (record : SourceRecord Data) : Option Bool :=
  andThen (whenGiven search.key fun key => some (atOrPast record.key key)) <|
  andThen (whenGiven search.primaryKey fun primaryKey =>
    match record, search.key with
    | .index record, some key =>
      if equals record.key key then some (atOrPast record.value primaryKey)
      else some (past record.key key)
    | _, _ => none) <|
  andThen (whenGiven search.position fun position =>
    match record with
    | .objectStore record => some (past record.key position)
    | .index record =>
      if equals record.key position then
        search.objectStorePosition.map fun value => past record.value value
      else some (past record.key position)) <|
  some (search.range.isInRange record.key)

def uniqueRequirements (atOrPast past : Key → Key → Bool) (search : Search)
    (record : SourceRecord Data) : Option Bool :=
  andThen (whenGiven search.key fun key => some (atOrPast record.key key)) <|
  andThen (whenGiven search.position fun position => some (past record.key position)) <|
  some (search.range.isInRange record.key)

section
variable (search : Search) (record : SourceRecord Data)

def nextRequirements : Option Bool :=
  requirements greaterThanOrEqual greaterThan search record

def nextUniqueRequirements : Option Bool :=
  uniqueRequirements greaterThanOrEqual greaterThan search record

def prevRequirements : Option Bool :=
  requirements lessThanOrEqual lessThan search record

def prevUniqueRequirements : Option Bool :=
  uniqueRequirements lessThanOrEqual lessThan search record

end

def firstMatching {Item : Type} (test : Item → Option Bool) : List Item → Option (Option Item)
  | [] => some none
  | item :: rest =>
    match test item with
    | none => none
    | some true => some (some item)
    | some false => firstMatching test rest

def lastMatching {Item : Type} (test : Item → Option Bool) (items : List Item) :
    Option (Option Item) :=
  firstMatching test items.reverse

/-- The switch on the direction. `found` is the record of the round before, which
`"prevunique"` leaves in place when it finds no `temp_record`. -/
def findRecord (direction : IDBCursorDirection) (search : Search)
    (records : List (SourceRecord Data)) (found : Option (SourceRecord Data)) :
    Option (Option (SourceRecord Data)) :=
  match direction with
  | .next => firstMatching (nextRequirements search) records
  | .nextunique => firstMatching (nextUniqueRequirements search) records
  | .prev => lastMatching (prevRequirements search) records
  | .prevunique =>
    match lastMatching (prevUniqueRequirements search) records with
    | none => none
    | some none => some found
    | some (some temp) =>
      some (records.find? fun record => equals record.key temp.key)

/-! ## The call -/

structure Progress (Data : Type) where
  found : Option (SourceRecord Data)
  (position objectStorePosition : Option Key)

def Progress.moveTo (progress : Progress Data) (source : CursorSource)
    (record : SourceRecord Data) : Progress Data :=
  { found := some record
    position := some record.key
    objectStorePosition :=
      match source, record with
      | .index _, .index record => some record.value
      | _, _ => progress.objectStorePosition }

def start (cursor : IDBCursor Data) : Progress Data :=
  { found := none, position := cursor.position,
    objectStorePosition := cursor.objectStorePosition }

variable (store : ObjectStore Data)

def round (cursor : IDBCursor Data) (key primaryKey : Option Key)
    (progress : Progress Data) : Option (Option (SourceRecord Data)) :=
  findRecord cursor.direction
    { range := cursor.range, key := key, primaryKey := primaryKey,
      position := progress.position,
      objectStorePosition := progress.objectStorePosition }
    (cursor.source.records store) progress.found

/-- Step 9; the inner `none` is the exit of its step 2. -/
def rounds (cursor : IDBCursor Data) (key primaryKey : Option Key) :
    Nat → Progress Data → Option (Option (Progress Data))
  | 0, progress => some (some progress)
  | count + 1, progress =>
    match round store cursor key primaryKey progress with
    | none => none
    | some none => some none
    | some (some record) =>
      rounds cursor key primaryKey count (progress.moveTo cursor.source record)

def clear (cursor : IDBCursor Data) : IDBCursor Data :=
  { cursor with
    key := none
    objectStorePosition :=
      match cursor.source with
      | .objectStore => cursor.objectStorePosition
      | .index _ => none
    value := if cursor.keyOnly then cursor.value else none }

def serializedValue : SourceRecord Data → Option Data
  | .objectStore record => some record.value
  | .index record => store.indexReferencedValue record

def settle (cursor : IDBCursor Data) (progress : Progress Data) : Option (IDBCursor Data) :=
  match progress.found with
  | none => none
  | some record =>
    let moved := { cursor with
      position := progress.position
      objectStorePosition :=
        match cursor.source with
        | .objectStore => cursor.objectStorePosition
        | .index _ => progress.objectStorePosition
      key := some record.key
      gotValue := true }
    if cursor.keyOnly then some moved
    else (serializedValue store record).map fun value => { moved with value := some value }

inductive Iteration (Data : Type) where
  | moved (cursor : IDBCursor Data)
  | ended (cursor : IDBCursor Data)

def iterateACursor (cursor : IDBCursor Data) (key primaryKey : Option Key)
    (count : Nat) : Option (Iteration Data) :=
  let isIndex :=
    match cursor.source with
    | .objectStore => false
    | .index _ => true
  let isNextOrPrev :=
    decide (cursor.direction = .next) || decide (cursor.direction = .prev)
  if primaryKey.isSome && !(isIndex && isNextOrPrev) then none
  else
    match rounds store cursor key primaryKey count cursor.start with
    | none => none
    | some none => some (.ended cursor.clear)
    | some (some progress) => (settle store cursor progress).map .moved

def successiveCalls : Nat → IDBCursor Data → Option (Iteration Data)
  | 0, cursor => some (.moved cursor)
  | count + 1, cursor =>
    match iterateACursor store cursor none none 1 with
    | some (.moved moved) => successiveCalls count moved
    | stopped => stopped

/-! ## Several rounds against several calls -/

theorem first_matching_mem {Item : Type} {test : Item → Option Bool} {items : List Item}
    {item : Item} (found : firstMatching test items = some (some item)) : item ∈ items := by
  induction items with
  | nil => simp [firstMatching] at found
  | cons _ _ ih =>
    simp only [firstMatching] at found
    split at found
    · cases found
    · cases found
      exact List.mem_cons_self
    · exact List.mem_cons_of_mem _ (ih found)

theorem find_equal_key {records : List (SourceRecord Data)} {temp : SourceRecord Data}
    (mem : temp ∈ records) :
    ∃ record, (records.find? fun record => equals record.key temp.key) = some record ∧
      record.key.unsigned = temp.key.unsigned := by
  have present : (records.find? fun record => equals record.key temp.key).isSome = true := by
    rw [List.find?_isSome]
    exact ⟨temp, mem, by simp [equals]⟩
  obtain ⟨record, found⟩ := isSome_iff_exists.mp present
  exact ⟨record, found, by simpa [equals] using List.find?_some found⟩

theorem find_record_eq {dir : IDBCursorDirection} {search : Search}
    {records : List (SourceRecord Data)} {found : Option (SourceRecord Data)} :
    findRecord dir search records found = (findRecord dir search records none).map fun fresh =>
        fresh.or (if dir = .prevunique then found else none) := by
  cases dir with
  | next | nextunique | prev => simp [findRecord]
  | prevunique =>
    simp only [findRecord]
    cases searched : lastMatching (prevUniqueRequirements search) records with
    | none => rfl
    | some temp =>
      cases temp with
      | none => rfl
      | some temp =>
        have mem : temp ∈ records :=
          List.mem_reverse.mp (first_matching_mem searched)
        obtain ⟨record, read, -⟩ := find_equal_key mem
        simp [read]

theorem iterate_once (cursor : IDBCursor Data) :
    iterateACursor store cursor none none 1 = match round store cursor none none cursor.start with
      | none => none
      | some none => some (.ended cursor.clear)
      | some (some record) =>
        (settle store cursor (cursor.start.moveTo cursor.source record)).map .moved := by
  simp only [iterateACursor, rounds, isSome_none, Bool.false_and, Bool.false_eq_true]
  cases round store cursor none none cursor.start with
  | none => rfl
  | some found => cases found <;> rfl

/-- A cursor settled on `progress` stands where the loop stands, apart from `found`. -/
structure Settled (cursor moved : IDBCursor Data) (progress : Progress Data) : Prop where
  settled : settle store cursor progress = some moved
  matched : cursor.source = .objectStore → progress.objectStorePosition = cursor.objectStorePosition
  standing : ∃ record, progress.found = some record ∧
    progress.moveTo cursor.source record = progress

variable {store} {cursor moved : IDBCursor Data} {progress : Progress Data}

section
variable (here : Settled store cursor moved progress)

include here

theorem Settled.fields :
    moved.source = cursor.source ∧ moved.direction = cursor.direction ∧
      moved.range = cursor.range ∧ moved.position = progress.position ∧
      moved.objectStorePosition = progress.objectStorePosition ∧
      ∀ later, settle store moved later = settle store cursor later := by
  obtain ⟨settled, matched, record, found, -⟩ := here
  obtain ⟨src, dir, range, pos, value, key, content, got, keyOnly⟩ := cursor
  simp only [settle, found] at settled
  cases keyOnly with
  | true =>
    cases settled
    cases src with
    | objectStore => exact ⟨rfl, rfl, rfl, rfl, (matched rfl).symm, fun _ => rfl⟩
    | index => exact ⟨rfl, rfl, rfl, rfl, rfl, fun _ => rfl⟩
  | false =>
    simp only [Bool.false_eq_true, if_false, map_eq_some_iff] at settled
    obtain ⟨serialized, -, same⟩ := settled
    cases same
    cases src with
    | objectStore => exact ⟨rfl, rfl, rfl, rfl, (matched rfl).symm, fun _ => rfl⟩
    | index => exact ⟨rfl, rfl, rfl, rfl, rfl, fun _ => rfl⟩

theorem Settled.round_eq :
    round store cursor none none progress =
      (round store moved none none moved.start).map fun fresh =>
        fresh.or (if cursor.direction = .prevunique then progress.found else none) := by
  obtain ⟨src, dir, range, pos, value, -⟩ := here.fields
  unfold round
  rw [find_record_eq]
  simp [start, src, dir, range, pos, value]

omit here in
theorem move_to_settled (cursor moved : IDBCursor Data) (progress : Progress Data)
    (record : SourceRecord Data) (matched : cursor.source = .objectStore →
      progress.objectStorePosition = cursor.objectStorePosition)
    (settled : settle store cursor (progress.moveTo cursor.source record) = some moved) :
    Settled store cursor moved (progress.moveTo cursor.source record) := by
  refine ⟨settled, ?_, record, rfl, ?_⟩
  · intro isStore
    simpa [Progress.moveTo, isStore] using matched isStore
  · cases cursor.source <;> cases record <;> rfl

theorem Settled.next {record : SourceRecord Data} {next : IDBCursor Data}
    (settled : settle store moved (moved.start.moveTo moved.source record) = some next) :
    Settled store cursor next (progress.moveTo cursor.source record) := by
  obtain ⟨src, -, -, pos, value, same⟩ := here.fields
  have sameProgress : moved.start.moveTo moved.source record =
      progress.moveTo cursor.source record := by
    simp [Progress.moveTo, start, src, value]
  apply move_to_settled cursor next progress record here.matched
  rwa [← sameProgress, ← same]

def RoundsEnd (store : ObjectStore Data) (cursor : IDBCursor Data)
    (reached : Option (Option (Progress Data))) : Iteration Data → Prop
  | .moved last => ∃ finish, reached = some (some finish) ∧
      settle store cursor finish = some last
  | .ended _ => cursor.direction ≠ .prevunique → reached = some none

theorem Settled.rounds_of_calls {count : Nat} {result : Iteration Data}
    (calls : successiveCalls store count moved = some result) :
    RoundsEnd store cursor (rounds store cursor none none count progress) result := by
  induction count generalizing moved progress with
  | zero =>
    cases calls
    exact ⟨progress, rfl, here.settled⟩
  | succ count ih =>
    have rounded := here.round_eq
    simp only [successiveCalls, iterate_once] at calls
    cases searched : round store moved none none moved.start with
    | none => simp [searched] at calls
    | some fresh =>
      cases fresh with
      | none =>
        simp only [searched, some.injEq] at calls
        subst calls
        intro other
        simp [rounds, rounded, searched, other]
      | some record =>
        have moves : rounds store cursor none none (count + 1) progress =
            rounds store cursor none none count (progress.moveTo cursor.source record) := by
          simp [rounds, rounded, searched]
        rw [moves]
        simp only [searched] at calls
        cases settled : settle store moved (moved.start.moveTo moved.source record) with
        | none => simp [settled] at calls
        | some next =>
          simp only [settled] at calls
          exact ih (here.next settled) calls

end

/-- `iterate_a_cursor` with `count` and without a key does what `count` calls do. -/
def Agrees (store : ObjectStore Data) (cursor : IDBCursor Data) (count : Nat) : Prop :=
  ∀ result, successiveCalls store count cursor = some result → match result with
    | .moved last => iterateACursor store cursor none none count = some (.moved last)
    | .ended _ => ∃ last, iterateACursor store cursor none none count = some (.ended last)

/-! ## What a backward cursor has before it -/

def isBefore (cursor : IDBCursor Data) (record : SourceRecord Data) : Bool :=
  cursor.position.all (lessThan record.key) && cursor.range.isInRange record.key

/-- The different keys of the records in the range and before the position. -/
def keysBefore (store : ObjectStore Data) (cursor : IDBCursor Data) : Finset (KeyOf ExactValue) :=
  (((cursor.source.records store).filter cursor.isBefore).map fun record =>
    record.key.unsigned).toFinset

theorem mem_keys_before {key : KeyOf ExactValue} :
    key ∈ keysBefore store cursor ↔ ∃ record ∈ cursor.source.records store,
      cursor.isBefore record = true ∧ record.key.unsigned = key := by
  simp [keysBefore, and_assoc]

theorem first_matching_total {Item : Type} {test : Item → Bool} {items : List Item} :
    firstMatching (fun item => some (test item)) items = some (items.find? test) := by
  induction items with
  | nil => rfl
  | cons item _ ih => cases accepted : test item <;> simp [firstMatching, accepted, ih]

theorem round_prevunique (unique : cursor.direction = .prevunique)
    (sorted : (cursor.source.records store).Pairwise fun left right =>
      KeyOf.compareTwoKeys left.key right.key ≤ 0) :
    (round store cursor none none cursor.start = some none ∧ keysBefore store cursor = ∅) ∨
      ∃ record, round store cursor none none cursor.start = some (some record) ∧
        record.key.unsigned ∈ keysBefore store cursor ∧
        ∀ key ∈ keysBefore store cursor, key ≤ record.key.unsigned := by
  have test : (fun record : SourceRecord Data => prevUniqueRequirements
      { range := cursor.range, key := none, primaryKey := none, position := cursor.position,
        objectStorePosition := cursor.objectStorePosition } record) =
      fun record => some (cursor.isBefore record) := by
    funext record
    unfold prevUniqueRequirements uniqueRequirements isBefore
    cases cursor.position with
    | none => rfl
    | some position =>
      cases below : lessThan record.key position <;> simp [whenGiven, andThen, below]
  simp only [round, unique, findRecord, start, test, lastMatching, first_matching_total]
  cases searched : (cursor.source.records store).reverse.find? cursor.isBefore with
  | none =>
    refine .inl ⟨rfl, Finset.eq_empty_of_forall_notMem fun key mem => ?_⟩
    obtain ⟨record, listed, before, -⟩ := mem_keys_before.mp mem
    exact List.find?_eq_none.mp searched record (List.mem_reverse.mpr listed) before
  | some temp =>
    obtain ⟨before, later, earlier, whole, rejected⟩ := List.find?_eq_some_iff_append.mp searched
    have listed : temp ∈ cursor.source.records store := by
      rw [← List.mem_reverse, whole]
      simp
    obtain ⟨record, found, same⟩ := find_equal_key listed
    refine .inr ⟨record, congrArg some found, ?_, ?_⟩
    · exact mem_keys_before.mpr ⟨temp, listed, before, same.symm⟩
    · intro key mem
      obtain ⟨other, otherListed, otherBefore, rfl⟩ := mem_keys_before.mp mem
      rw [same]
      have descending := List.pairwise_reverse.mpr sorted
      rw [whole] at descending
      rw [← List.mem_reverse, whole] at otherListed
      rcases List.mem_append.mp otherListed with late | rest
      · exact absurd otherBefore (by simpa using rejected other late)
      rcases List.mem_cons.mp rest with rfl | early
      · exact le_refl _
      · have below := (List.pairwise_cons.mp (List.pairwise_append.mp descending).2.1).1 other early
        rwa [KeyOf.compare_le_zero] at below

theorem calls_not_ended {count : Nat} {last : IDBCursor Data}
    (unique : cursor.direction = .prevunique)
    (sorted : (cursor.source.records store).Pairwise fun left right =>
      KeyOf.compareTwoKeys left.key right.key ≤ 0)
    (enough : count ≤ (keysBefore store cursor).card) :
    successiveCalls store count cursor ≠ some (.ended last) := by
  induction count generalizing cursor with
  | zero => simp [successiveCalls]
  | succ count ih =>
    simp only [successiveCalls, iterate_once]
    rcases round_prevunique unique sorted with ⟨-, empty⟩ | ⟨record, found, -, greatest⟩
    · simp [empty] at enough
    rw [found]
    dsimp only
    cases settled : settle store cursor (cursor.start.moveTo cursor.source record) with
    | none => simp
    | some moved =>
      obtain ⟨source, direction, range, position, -⟩ :=
        (move_to_settled cursor moved cursor.start record (fun _ => rfl) settled).fields
      apply ih (direction.trans unique) (source ▸ sorted)
      -- Every key before the old position but the greatest is before the new one.
      have kept : (keysBefore store cursor).erase record.key.unsigned ⊆
          keysBefore store moved := by
        intro key mem
        obtain ⟨different, old⟩ := Finset.mem_erase.mp mem
        obtain ⟨other, listed, before, rfl⟩ := mem_keys_before.mp old
        refine mem_keys_before.mpr ⟨other, source ▸ listed, ?_, rfl⟩
        simp only [isBefore, Bool.and_eq_true] at before
        simp only [isBefore, range, position, Progress.moveTo, Option.all_some, lessThan,
          KeyOf.compare_lt_zero, decide_eq_true_eq, Bool.and_eq_true, before.2, and_true]
        exact lt_of_le_of_ne (greatest _ old) different
      have fewer := Finset.pred_card_le_card_erase
        (s := keysBefore store cursor) (a := record.key.unsigned)
      have grows := Finset.card_le_card kept
      omega

def indexedStore : ObjectStore Unit :=
  { name := "", keyPath := none, keyGenerator := none,
    records := [{ key := .string [1], value := () }, { key := .string [2], value := () },
      { key := .string [3], value := () }],
    indexSet := [0],
    index := fun _ =>
      { name := "", unique := false, multiEntry := false, keyPath := .string "",
        deleted := false,
        records := [{ key := .string [7], value := .string [1] },
          { key := .string [8], value := .string [2] },
          { key := .string [8], value := .string [3] }] },
    mutationLog := none }

def lastCursor : IDBCursor Unit :=
  { source := .index 0, direction := .prevunique,
    range := { lowerBound := none, upperBound := none, lowerOpen := false,
               upperOpen := false },
    position := none, objectStorePosition := none, key := none, value := none,
    gotValue := false, keyOnly := false }

end IDBCursor
end Ladybone.IndexedDB
