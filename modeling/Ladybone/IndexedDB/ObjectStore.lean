import Ladybone.IndexedDB.Key
import Ladybone.Support.Journal
import Ladybone.Support.SortedSearch

/-!
# Object stores, indexes and the mutation log

Transcription of `RecordRange.h`, `Index.cpp`, `ObjectStore.cpp` and
`MutationLog.cpp`. Index objects live in a heap addressed by `IndexRef`, as
`GC::Ref<Index>` does; `indexSet` lists the references in the iteration order
of the hash map, which is arbitrary. The attached log is kept inline, and a
failed `VERIFY` or a dereferenced empty pointer is `none`.
-/

namespace Ladybone.IndexedDB

open Support.SortedSearch Support.Journal

inductive KeyPath where
  | string (path : String)
  | list (paths : List String)
deriving DecidableEq

structure IDBKeyRange where
  (lowerBound upperBound : Option Key)
  (lowerOpen upperOpen : Bool)

namespace IDBKeyRange

def lowerBoundInRange (range : IDBKeyRange) (key : Key) : Bool :=
  match range.lowerBound with
  | none => true
  | some lower =>
    decide (KeyOf.compareTwoKeys lower key < 0) ||
      (decide (KeyOf.compareTwoKeys key lower = 0) && !range.lowerOpen)

def upperBoundInRange (range : IDBKeyRange) (key : Key) : Bool :=
  match range.upperBound with
  | none => true
  | some upper =>
    decide (0 < KeyOf.compareTwoKeys upper key) ||
      (decide (KeyOf.compareTwoKeys key upper = 0) && !range.upperOpen)

def isInRange (range : IDBKeyRange) (key : Key) : Bool :=
  range.lowerBoundInRange key && range.upperBoundInRange key

end IDBKeyRange

section
variable {Record : Type} (keyOf : Record → Key)

structure RecordRange where
  start : Nat
  «end» : Nat

def firstRecordIndexWithKeyAtOrAfter (records : List Record) (key : Key) (isOpen : Bool) : Nat :=
  partitionPoint
    (fun record =>
      let comparison := KeyOf.compareTwoKeys (keyOf record) key
      decide (comparison < 0) || (decide (comparison = 0) && isOpen))
    records 0

def firstRecordIndexWithKeyAfter (records : List Record) (key : Key)
    (isOpen : Bool) (start : Nat) : Nat :=
  partitionPoint
    (fun record =>
      let comparison := KeyOf.compareTwoKeys (keyOf record) key
      decide (comparison < 0) || (decide (comparison = 0) && !isOpen))
    records start

def recordRangeForKeyRange (records : List Record) (range : IDBKeyRange) : RecordRange :=
  let start :=
    match range.lowerBound with
    | none => 0
    | some lower => firstRecordIndexWithKeyAtOrAfter keyOf records lower range.lowerOpen
  let stop :=
    match range.upperBound with
    | none => records.length
    | some upper => firstRecordIndexWithKeyAfter keyOf records upper range.upperOpen start
  { start := start, «end» := stop }

end

structure ObjectStoreRecord (Data : Type) where
  key : Key
  value : Data

structure IndexRecord where
  (key value : Key)
deriving DecidableEq

abbrev IndexRef := Nat

structure Index where
  name : String
  (unique multiEntry : Bool)
  keyPath : KeyPath
  deleted : Bool
  records : List IndexRecord

inductive Entry (Data : Type) where
  | objectStoreCreated
  | objectStoreDeleted
  | objectStoreRenamed (oldName : String)
  | indexCreated (index : IndexRef)
  | indexDeleted (index : IndexRef)
  | indexRenamed (index : IndexRef) (oldName : String)
  | keyGeneratorChanged (oldValue : Nat)
  | recordsDeleted (records : List (ObjectStoreRecord Data))
  | recordStored (key : Key)
  | indexRecordsDeleted (index : IndexRef) (records : List IndexRecord)
  | indexRecordStored (index : IndexRef) (record : IndexRecord)

structure ObjectStore (Data : Type) where
  name : String
  keyPath : Option KeyPath
  keyGenerator : Option Nat
  records : List (ObjectStoreRecord Data)
  indexSet : List IndexRef
  index : IndexRef → Index
  mutationLog : Option (List (Entry Data))

def compareIndexRecords (a b : IndexRecord) : Int :=
  let keyComparison := KeyOf.compareTwoKeys a.key b.key
  if keyComparison ≠ 0 then keyComparison else KeyOf.compareTwoKeys a.value b.value

def lowerBoundIndex {Item : Type} (comparator : Item → Item → Int)
    (haystack : List Item) (needle : Item) : Nat :=
  partitionPoint (fun item => decide (comparator item needle < 0)) haystack 0

namespace ObjectStore

variable {Data : Type}

section
variable (store : ObjectStore Data)

def usesAKeyGenerator : Bool := store.keyGenerator.isSome

def mutationLogPosition : Nat :=
  match store.mutationLog with
  | none => 0
  | some log => log.length

def note (entry : Entry Data) : ObjectStore Data :=
  { store with mutationLog := store.mutationLog.map (· ++ [entry]) }

def setIndexRecords (ref : IndexRef) (records : List IndexRecord) : ObjectStore Data :=
  { store with
    index := Function.update store.index ref
      { store.index ref with records := records } }

end

/-! ## Store mutators -/

variable (store : ObjectStore Data)

def removeRecordsInRange (range : IDBKeyRange) : ObjectStore Data :=
  if store.records.isEmpty then store
  else
    let recordRange := recordRangeForKeyRange ObjectStoreRecord.key store.records range
    if recordRange.start < recordRange.end then
      let deleted :=
        (store.records.drop recordRange.start).take (recordRange.end - recordRange.start)
      { store.note (.recordsDeleted deleted) with
        records := store.records.take recordRange.start ++
          store.records.drop recordRange.end }
    else store

def findRecordWithKey (records : List (ObjectStoreRecord Data)) (key : Key) : Option Nat :=
  binarySearch (fun record => KeyOf.compareTwoKeys key record.key) records

def removeRecordWithKey (key : Key) : ObjectStore Data :=
  match findRecordWithKey store.records key with
  | none => store
  | some position => { store with records := store.records.eraseIdx position }

def hasRecordWithKey (key : Key) : Bool :=
  (findRecordWithKey store.records key).isSome

def storeARecord (record : ObjectStoreRecord Data) : ObjectStore Data :=
  { store.note (.recordStored record.key) with
    records :=
      match store.records.getLast? with
      | none => store.records ++ [record]
      | some last =>
        if KeyOf.compareTwoKeys last.key record.key ≤ 0 then store.records ++ [record]
        else store.records.insertIdx
          (firstRecordIndexWithKeyAtOrAfter ObjectStoreRecord.key
            store.records record.key false) record }

def clearRecords : ObjectStore Data :=
  if store.records.isEmpty then store
  else { store.note (.recordsDeleted store.records) with records := [] }

def maxKeyGeneratorValue : Nat := 2 ^ 53

/-- `generator.current_number()` after step 4; the counter is a `u64`. -/
def generateAKey : Option (Except String Nat × ObjectStore Data) :=
  match store.keyGenerator with
  | none => none
  | some key =>
    if maxKeyGeneratorValue < key then
      some (.error "Key is greater than 2^53 while trying to generate a key", store)
    else
      some (.ok key,
        { store.note (.keyGeneratorChanged key) with
          keyGenerator := some ((key + 1) % 2 ^ 64) })

/-- Round-to-nearest, ties to even, of a natural number to 53 bits. -/
def roundToDouble (value : Nat) : Nat :=
  if value < 2 ^ 53 then value
  else
    let unit := 2 ^ (Nat.log2 value - 52)
    let quotient := value / unit
    let remainder := value % unit
    if 2 * remainder < unit then quotient * unit
    else if unit < 2 * remainder then (quotient + 1) * unit
    else if quotient % 2 = 0 then quotient * unit
    else (quotient + 1) * unit

def possiblyUpdateTheKeyGenerator (key : Key) : Option (ObjectStore Data) :=
  match key with
  | .number value =>
    match store.keyGenerator with
    | none => none
    | some current =>
      match min value.value (Double.ofNat maxKeyGeneratorValue).value with
      | some (some finite) =>
        let floored := Int.floor finite
        if (roundToDouble current : Int) ≤ floored then
          some { store.note (.keyGeneratorChanged current) with
            keyGenerator := some (roundToDouble (floored + 1).toNat) }
        else some store
      | _ => some store
  | _ => some store

/-! ## Index mutators -/

section
variable (store : ObjectStore Data)

def indexHasRecordWithKey (ref : IndexRef) (key : Key) : Bool :=
  (binarySearch (fun record : IndexRecord => KeyOf.compareTwoKeys key record.key)
    (store.index ref).records).isSome

/-- `Index::referenced_value`; `none` is its failed `VERIFY`. -/
def indexReferencedValue (record : IndexRecord) : Option Data :=
  match findRecordWithKey store.records record.value with
  | none => none
  | some position => store.records[position]?.map ObjectStoreRecord.value

def indexClearRecords (ref : IndexRef) : ObjectStore Data :=
  if (store.index ref).records.isEmpty then store
  else
    (store.note (.indexRecordsDeleted ref (store.index ref).records)).setIndexRecords ref []

def indexStoreARecord (ref : IndexRef) (record : IndexRecord) : ObjectStore Data :=
  let records := (store.index ref).records
  (store.note (.indexRecordStored ref record)).setIndexRecords ref
    (match records.getLast? with
      | none => records ++ [record]
      | some last =>
        if compareIndexRecords last record ≤ 0 then records ++ [record]
        else records.insertIdx
          (lowerBoundIndex compareIndexRecords records record) record)

def indexRemoveRecord (ref : IndexRef) (record : IndexRecord) : ObjectStore Data :=
  let records := (store.index ref).records
  let position := lowerBoundIndex compareIndexRecords records record
  match records[position]? with
  | none => store
  | some found =>
    if compareIndexRecords found record = 0 then
      store.setIndexRecords ref (records.eraseIdx position)
    else store

def indexRemoveRecordsWithValueInRange (ref : IndexRef) (range : IDBKeyRange) : ObjectStore Data :=
  let records := (store.index ref).records
  let removed := records.filter fun record => range.isInRange record.value
  if removed.isEmpty then store
  else
    (store.note (.indexRecordsDeleted ref removed)).setIndexRecords ref
      (records.filter fun record => !range.isInRange record.value)

/-- `IDBObjectStore::create_index` from step 6 on, for a newly allocated `ref`.
`none` when it throws, or when there is no log to note the creation in. The new
index is left empty. -/
def createIndex (ref : IndexRef) (name : String)
    (keyPath : KeyPath) (unique multiEntry : Bool) : Option (ObjectStore Data) :=
  let nameTaken := store.indexSet.any fun other => (store.index other).name == name
  let isSequence :=
    match keyPath with
    | .string _ => false
    | .list _ => true
  if ref ∈ store.indexSet || nameTaken || (isSequence && multiEntry) ||
      store.mutationLog.isNone then none
  else
    some { store.note (.indexCreated ref) with
      indexSet := store.indexSet ++ [ref]
      index := Function.update store.index ref
        { name := name, unique := unique, multiEntry := multiEntry, keyPath := keyPath,
          deleted := false, records := [] } }

end

/-! ## Reverting -/

/-- One visited entry of `revert_entries` called without a database: the schema
entries that need one fail their `VERIFY`. The store has no log attached while
this runs, so the mutators it reuses note nothing. -/
def revertEntry (entry : Entry Data) (store : ObjectStore Data) : Option (ObjectStore Data) :=
  match entry with
  | .objectStoreCreated => none
  | .objectStoreDeleted => none
  | .indexCreated _ => none
  | .indexDeleted _ => none
  | .objectStoreRenamed oldName => some { store with name := oldName }
  | .indexRenamed ref oldName =>
    some { store with
      index := Function.update store.index ref
        { store.index ref with name := oldName } }
  | .keyGeneratorChanged oldValue =>
    match store.keyGenerator with
    | none => none
    | some _ => some { store with keyGenerator := some oldValue }
  | .recordsDeleted records => some (records.foldl storeARecord store)
  | .recordStored key => some (store.removeRecordWithKey key)
  | .indexRecordsDeleted ref records =>
    some (records.foldl (fun store record => store.indexStoreARecord ref record) store)
  | .indexRecordStored ref record => some (store.indexRemoveRecord ref record)

def revertMutationsFrom (position : Nat) : Option (ObjectStore Data) :=
  match store.mutationLog with
  | none => some store
  | some log =>
    (rollback revertEntry (log.drop position) { store with mutationLog := none }).map
      fun reverted => { reverted with mutationLog := some (log.take position) }

end ObjectStore
end Ladybone.IndexedDB
