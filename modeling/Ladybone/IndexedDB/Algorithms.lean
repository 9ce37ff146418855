import Ladybone.IndexedDB.ObjectStore

/-!
# Storage algorithms

`convert_a_value_to_a_key`, `convert_a_value_to_a_multi_entry_key`,
`extract_a_key_from_a_value_using_a_key_path`,
`delete_records_from_an_object_store`, `store_a_record_into_an_object_store` and
`clear_an_object_store` of `Algorithms.cpp`. Script values stay abstract: an
`Engine` says what LibJS answers about them.
-/

namespace Ladybone.IndexedDB

/-- An element of an Array exotic object: whether it is an own property, and what
`Get` returns (`none` for an abrupt completion). -/
structure ArraySlot (Value : Type) where
  hasOwnProperty : Bool
  get : Option Value

/-- The tests `convert_a_value_to_a_key` makes on a value, in its order. `none`
stands for a NaN number or date and for a detached buffer. -/
inductive ValueKind (Value : Type) where
  | number (value : Option Double)
  | date (ms : Option Double)
  | string (text : DOMString)
  | bufferSource (bytes : Option (List Byte))
  | array (slots : List (ArraySlot Value))
  | other

structure Engine (Value Data : Type) where
  kind : Value → ValueKind Value
  /-- `none` for an exception or a failure. -/
  evaluateKeyPathOnAValue : Value → KeyPath → Option Value
  injectAKeyIntoAValueUsingAKeyPath : Value → Key → KeyPath → Value
  structuredSerializeForStorage : Value → Data
  stackDepth : Nat

def Engine.keys : Engine Key Key where
  kind
    | .number value => .number (some value)
    | .date ms => .date (some ms)
    | .string text => .string text
    | .binary bytes => .bufferSource (some bytes)
    | .array keys => .array (keys.map fun key => { hasOwnProperty := true, get := some key })
  evaluateKeyPathOnAValue
    | value, .string "" => some value
    | _, _ => none
  injectAKeyIntoAValueUsingAKeyPath value _ _ := value
  structuredSerializeForStorage := id
  stackDepth := 8

inductive Conversion where
  | key (key : Key)
  | invalid
  | exception
deriving DecidableEq

/-- A `GC::Ref<Key>`: equality of references is equality of cells. -/
structure KeyRef where
  cell : Nat
  key : Key

section
variable {Value Data : Type} [DecidableEq Value]

def convertSlots (convert : Value → Conversion) : List (ArraySlot Value) → List Key → Conversion
  | [], keys => .key (.array keys)
  | slot :: later, keys =>
    if !slot.hasOwnProperty then .invalid
    else
      match slot.get with
      | none => .exception
      | some entry =>
        match convert entry with
        | .key key => convertSlots convert later (keys ++ [key])
        | .invalid => .invalid
        | .exception => .exception

def convertAValueToAKeyWithin (engine : Engine Value Data) : Nat → Value → List Value → Conversion
  | 0, _, _ => .exception
  | depth + 1, input, seen =>
    if input ∈ seen then .invalid
    else
      match engine.kind input with
      | .number none => .invalid
      | .number (some value) => .key (.number value)
      | .date none => .invalid
      | .date (some ms) => .key (.date ms)
      | .string text => .key (.string text)
      | .bufferSource none => .invalid
      | .bufferSource (some bytes) => .key (.binary bytes)
      | .array slots =>
        convertSlots
          (fun entry => convertAValueToAKeyWithin engine depth entry (seen ++ [input]))
          slots []
      | .other => .invalid

def convertAValueToAKey (engine : Engine Value Data) (input : Value)
    (seen : List Value) : Conversion :=
  convertAValueToAKeyWithin engine engine.stackDepth input seen

/-- Step 5: every successful conversion allocates a key of its own, and
`contains_slow` compares references. -/
def multiEntryLoop (convert : Value → Conversion) :
    List (ArraySlot Value) → Nat → List KeyRef → List KeyRef
  | [], _, keys => keys
  | slot :: later, index, keys =>
    let appended :=
      match slot.get with
      | none => keys
      | some entry =>
        match convert entry with
        | .key key =>
          if keys.any (fun other => other.cell == index) then keys
          else keys ++ [{ cell := index, key := key }]
        | .invalid => keys
        | .exception => keys
    multiEntryLoop convert later (index + 1) appended

def convertAValueToAMultiEntryKey (engine : Engine Value Data) (value : Value) : Conversion :=
  match engine.kind value with
  | .array slots =>
    .key (.array
      ((multiEntryLoop (fun entry => convertAValueToAKey engine entry [value])
        slots 0 []).map KeyRef.key))
  | _ => convertAValueToAKey engine value []

def extractAKeyFromAValueUsingAKeyPath (engine : Engine Value Data) (value : Value)
    (keyPath : KeyPath) (multiEntry : Bool) : Conversion :=
  match engine.evaluateKeyPathOnAValue value keyPath with
  | none => .exception
  | some result =>
    if multiEntry then convertAValueToAMultiEntryKey engine result
    else convertAValueToAKey engine result []

end

namespace ObjectStore

variable {Value Data : Type} [DecidableEq Value]

def deleteRecordsFromAnObjectStore (store : ObjectStore Data) (range : IDBKeyRange) :
    ObjectStore Data :=
  (store.removeRecordsInRange range).indexSet.foldl
    (fun store ref => store.indexRemoveRecordsWithValueInRange ref range)
    (store.removeRecordsInRange range)

def clearAnObjectStore (store : ObjectStore Data) : ObjectStore Data :=
  store.clearRecords.indexSet.foldl indexClearRecords store.clearRecords

def indexSubkeys (multiEntry : Bool) (indexKey : Key) : List Key :=
  match multiEntry, indexKey with
  | true, .array subkeys => subkeys
  | _, other => [other]

/-- Step 5 for one index. `none` is the `ConstraintError`. -/
def storeIntoIndex (engine : Engine Value Data) (value : Value) (key : Key)
    (store : ObjectStore Data) (ref : IndexRef) : Option (ObjectStore Data) :=
  let index := store.index ref
  match extractAKeyFromAValueUsingAKeyPath engine value index.keyPath index.multiEntry with
  | .invalid => some store
  | .exception => some store
  | .key indexKey =>
    let subkeys := indexSubkeys index.multiEntry indexKey
    if index.unique && subkeys.any (store.indexHasRecordWithKey ref) then none
    else
      some (subkeys.foldl
        (fun store subkey =>
          store.indexStoreARecord ref { key := subkey, value := key }) store)

/-- Step 5. On a `ConstraintError` the indexes visited so far keep their records. -/
def storeIntoIndexes (engine : Engine Value Data) (value : Value) (key : Key) :
    List IndexRef → ObjectStore Data → Except String Key × ObjectStore Data
  | [], store => (.ok key, store)
  | ref :: later, store =>
    match storeIntoIndex engine value key store ref with
    | none => (.error "Record already exists in index", store)
    | some stored => storeIntoIndexes engine value key later stored

def onlyKey (key : Key) : IDBKeyRange :=
  { lowerBound := some key, upperBound := some key, lowerOpen := false,
    upperOpen := false }

def removeExisting (store : ObjectStore Data) (key : Key) : ObjectStore Data :=
  if store.hasRecordWithKey key then store.deleteRecordsFromAnObjectStore (onlyKey key)
  else store

section
variable (engine : Engine Value Data) (store : ObjectStore Data) (value : Value)

def storeWithKey (key : Key) (noOverwrite : Bool) : Except String Key × ObjectStore Data :=
  if noOverwrite && store.hasRecordWithKey key then (.error "Record already exists", store)
  else
    let stored := (store.removeExisting key).storeARecord
      { key := key, value := engine.structuredSerializeForStorage value }
    storeIntoIndexes engine value key stored.indexSet stored

/-- Step 1: the key the record gets, and the value with a generated key injected.
A missing key without a key generator is the null pointer dereferenced in step 2. -/
def resolveKey (key : Option Key) : Option (Except String (Key × Value) × ObjectStore Data) :=
  if store.usesAKeyGenerator then
    match key with
    | none =>
      store.generateAKey.map fun
        | (.error message, failed) => (.error message, failed)
        | (.ok number, generated) =>
          let generatedKey := KeyOf.number (Double.ofNat (roundToDouble number))
          match generated.keyPath with
          | none => (.ok (generatedKey, value), generated)
          | some path =>
            (.ok (generatedKey,
              engine.injectAKeyIntoAValueUsingAKeyPath value generatedKey path),
              generated)
    | some key =>
      (store.possiblyUpdateTheKeyGenerator key).map fun updated =>
        (.ok (key, value), updated)
  else
    key.map fun key => (.ok (key, value), store)

/-- `store_a_record_into_an_object_store`; the errors are `ConstraintError`s. -/
def storeARecordIntoAnObjectStore (key : Option Key)
    (noOverwrite : Bool) : Option (Except String Key × ObjectStore Data) :=
  (resolveKey engine store value key).map fun
    | (.error message, failed) => (.error message, failed)
    | (.ok (key, value), resolved) => storeWithKey engine resolved value key noOverwrite

end
end ObjectStore
end Ladybone.IndexedDB
