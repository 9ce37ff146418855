import Ladybone.IndexedDB.Rollback
import Ladybone.Support.Runs

/-!
# Referential integrity of a store and its indexes

`Integrity` is what index lookups rely on. Every request keeps it as long as the
keys a multiEntry index extracts from a value are pairwise different, which
`convert_a_value_to_a_multi_entry_key` does not ensure: it compares freshly
allocated keys by reference.
-/

namespace Ladybone.IndexedDB.ObjectStore

open Support.SortedSearch Support.Runs List Function

variable {Value Data : Type} [DecidableEq Value]

structure Integrity (store : ObjectStore Data) : Prop where
  records : StrictlyAscending ObjectStoreRecord.sortKey store.records
  indexes : ∀ ref ∈ store.indexSet, StrictlyAscending IndexRecord.sortKey (store.index ref).records
  referenced : ∀ ref ∈ store.indexSet, ∀ record ∈ (store.index ref).records,
    ∃ stored ∈ store.records, stored.key = record.value
  unique : ∀ ref ∈ store.indexSet, (store.index ref).unique = true →
    (store.index ref).records.Pairwise fun left right => left.key.unsigned ≠ right.key.unsigned

variable {store before after : ObjectStore Data} {ref : IndexRef} {key : Key} {subkeys : List Key}
  {engine : Engine Value Data} {val : Value} (intact : store.Integrity)
  (mem : ref ∈ store.indexSet) (distinct : store.indexSet.Nodup)

include intact in
theorem Integrity.regular : store.Regular where
  records := intact.records
  indexes := fun ref mem => (intact.indexes ref mem).ascending
  unambiguous := fun ref mem _ inLeft _ inRight same =>
    (intact.indexes ref mem).eq_of_key_eq inLeft inRight (compare_index_records_eq.mp same)

include intact mem in
/-- The `VERIFY` of `Index::referenced_value` holds for every index record. -/
theorem Integrity.referenced_value {record : IndexRecord}
    (listed : record ∈ (store.index ref).records) :
    (store.indexReferencedValue record).isSome = true := by
  obtain ⟨target, inside, same⟩ := intact.referenced ref mem record listed
  have present := (has_record_with_key_iff intact.regular).mpr
    ⟨target, inside, congrArg KeyOf.unsigned same⟩
  obtain ⟨position, found⟩ := Option.isSome_iff_exists.mp present
  obtain ⟨stored, read, _⟩ := binary_search_sound _ _ found
  simp [indexReferencedValue, found, read]

/-- What integrity asks of one index. -/
structure Fits (records : List (ObjectStoreRecord Data)) (index : Index) : Prop where
  strict : StrictlyAscending IndexRecord.sortKey index.records
  referenced : ∀ record ∈ index.records, ∃ stored ∈ records, stored.key = record.value
  unique : index.unique = true →
    index.records.Pairwise fun left right => left.key.unsigned ≠ right.key.unsigned

theorem fits_of_empty {records : List (ObjectStoreRecord Data)} {idx : Index}
    (empty : idx.records = []) : Fits records idx := by
  constructor
  all_goals simp [empty, StrictlyAscending]

include intact mem in
theorem Integrity.fits : Fits store.records (store.index ref) :=
  ⟨intact.indexes ref mem, intact.referenced ref mem, intact.unique ref mem⟩

theorem Integrity.of_fits (records : StrictlyAscending ObjectStoreRecord.sortKey store.records)
    (fits : ∀ ref ∈ store.indexSet, Fits store.records (store.index ref)) : store.Integrity :=
  ⟨records, fun ref mem => (fits ref mem).strict, fun ref mem => (fits ref mem).referenced,
    fun ref mem => (fits ref mem).unique⟩

theorem Integrity.congr (intact : before.Integrity) (records : after.records = before.records)
    (indexSet : after.indexSet = before.indexSet) (idx : after.index = before.index) :
    after.Integrity := by
  apply Integrity.of_fits
  · rw [records]
    exact intact.records
  · rw [records, indexSet, idx]
    exact fun ref => intact.fits

/-! ## Store records -/

include intact in
theorem Integrity.store_a_record (record : ObjectStoreRecord Data)
    (fresh : ∀ other ∈ store.records, other.sortKey ≠ record.sortKey) :
    (store.storeARecord record).Integrity where
  records := by
    rw [store_a_record_records]
    exact insert_ascending_strict record intact.records fresh
  indexes := intact.indexes
  referenced := by
    intro ref mem entry listed
    obtain ⟨stored, inside, same⟩ := intact.referenced ref mem entry listed
    refine ⟨stored, ?_, same⟩
    rw [store_a_record_records]
    apply (insert_ascending_perm record intact.records.ascending).symm.subset
    exact mem_cons_of_mem _ inside
  unique := intact.unique

/-! ## Range deletion and clearing -/

theorem fold_visit_index {visit : ObjectStore Data → IndexRef → ObjectStore Data}
    (change : Index → Index) (visited : ∀ store ref, (visit store ref).index =
      Function.update store.index ref (change (store.index ref))) (refs : List IndexRef)
    (distinct : refs.Nodup) (store : ObjectStore Data) (ref : IndexRef) :
    (refs.foldl visit store).index ref =
      if ref ∈ refs then change (store.index ref) else store.index ref := by
  induction refs generalizing store with
  | nil => simp
  | cons first _ ih =>
    obtain ⟨firstApart, laterDistinct⟩ := nodup_cons.mp distinct
    rw [foldl_cons, ih laterDistinct, visited]
    by_cases same : ref = first
    · subst same
      simp [firstApart]
    · simp [same]

theorem fold_visit_frame {visit : ObjectStore Data → IndexRef → ObjectStore Data}
    (framed : ∀ store ref, (visit store ref).records = store.records ∧
      (visit store ref).indexSet = store.indexSet)
    {refs : List IndexRef} (store : ObjectStore Data) :
    (refs.foldl visit store).records = store.records ∧
      (refs.foldl visit store).indexSet = store.indexSet := by
  induction refs generalizing store with
  | nil => exact ⟨rfl, rfl⟩
  | cons first _ ih =>
    rw [foldl_cons, (ih _).1, (ih _).2]
    exact framed store first

section
variable (range : IDBKeyRange) (store : ObjectStore Data) (ref : IndexRef)

theorem index_remove_in_range_index :
    (store.indexRemoveRecordsWithValueInRange ref range).index = Function.update store.index ref
        { store.index ref with
          records := (store.index ref).records.filter fun record =>
            !range.isInRange record.value } := by
  unfold indexRemoveRecordsWithValueInRange
  dsimp only
  split_ifs with none
  · have kept : (store.index ref).records.filter (fun record =>
        !range.isInRange record.value) = (store.index ref).records := by
      rw [List.isEmpty_iff, List.filter_eq_nil_iff] at none
      rw [filter_eq_self]
      intro record mem
      simpa using none record mem
    rw [kept]
    exact (update_eq_self ref store.index).symm
  · rfl

theorem index_remove_in_range_frame :
    (store.indexRemoveRecordsWithValueInRange ref range).records = store.records ∧
      (store.indexRemoveRecordsWithValueInRange ref range).indexSet = store.indexSet := by
  unfold indexRemoveRecordsWithValueInRange
  dsimp only
  split_ifs
  all_goals exact ⟨rfl, rfl⟩

theorem remove_records_frame :
    (store.removeRecordsInRange range).index = store.index ∧
      (store.removeRecordsInRange range).indexSet = store.indexSet := by
  unfold removeRecordsInRange
  dsimp only
  split_ifs
  all_goals exact ⟨rfl, rfl⟩

theorem delete_records_index_set :
    (store.deleteRecordsFromAnObjectStore range).indexSet = store.indexSet := by
  unfold deleteRecordsFromAnObjectStore
  rw [(fold_visit_frame (index_remove_in_range_frame range) _).2,
    (remove_records_frame range store).2]

theorem index_clear_records_index :
    (store.indexClearRecords ref).index =
      Function.update store.index ref { store.index ref with records := [] } := by
  unfold indexClearRecords
  split_ifs with empty
  · rw [List.isEmpty_iff] at empty
    rw [← empty]
    exact (update_eq_self ref store.index).symm
  · rfl

theorem index_clear_records_frame :
    (store.indexClearRecords ref).records = store.records ∧
      (store.indexClearRecords ref).indexSet = store.indexSet := by
  unfold indexClearRecords
  split_ifs
  all_goals exact ⟨rfl, rfl⟩

theorem clear_records_frame :
    store.clearRecords.records = [] ∧ store.clearRecords.index = store.index ∧
      store.clearRecords.indexSet = store.indexSet := by
  unfold clearRecords
  split_ifs with empty
  · exact ⟨isEmpty_iff.mp empty, rfl, rfl⟩
  · exact ⟨rfl, rfl, rfl⟩

theorem clear_an_object_store_index_set : store.clearAnObjectStore.indexSet = store.indexSet := by
  unfold clearAnObjectStore
  rw [(fold_visit_frame index_clear_records_frame _).2, (clear_records_frame store).2.2]

end

include distinct in
theorem delete_records_index (range : IDBKeyRange) (ref : IndexRef) (mem : ref ∈ store.indexSet) :
    (store.deleteRecordsFromAnObjectStore range).index ref = { store.index ref with
        records := (store.index ref).records.filter fun record =>
          !range.isInRange record.value } := by
  obtain ⟨idx, indexSet⟩ := remove_records_frame range store
  unfold deleteRecordsFromAnObjectStore
  rw [indexSet, fold_visit_index (fun idx => { idx with
      records := idx.records.filter fun record => !range.isInRange record.value })
    (index_remove_in_range_index range) _ distinct, if_pos mem, idx]

include intact distinct in
theorem Integrity.delete_records (range : IDBKeyRange) :
    (store.deleteRecordsFromAnObjectStore range).Integrity := by
  have kept := delete_records_records intact.regular range
  have indexSet := delete_records_index_set range store
  have idx := fun ref mem => delete_records_index distinct range ref mem
  apply Integrity.of_fits
  · rw [kept]
    exact intact.records.sublist filter_sublist
  · intro ref mem
    rw [indexSet] at mem
    rw [idx ref mem, kept]
    refine ⟨(intact.indexes ref mem).sublist filter_sublist, ?_,
      fun isUnique => (intact.unique ref mem isUnique).sublist filter_sublist⟩
    intro record listed
    obtain ⟨old, outside⟩ := mem_filter.mp listed
    obtain ⟨stored, inside, same⟩ := intact.referenced ref mem record old
    refine ⟨stored, ?_, same⟩
    rw [mem_filter, same]
    exact ⟨inside, outside⟩

include distinct in
theorem clear_an_object_store_integrity : store.clearAnObjectStore.Integrity := by
  obtain ⟨records, _, indexSet⟩ := clear_records_frame store
  have noRecords : store.clearAnObjectStore.records = [] := by
    unfold clearAnObjectStore
    rw [(fold_visit_frame index_clear_records_frame _).1, records]
  have noIndexRecords : ∀ ref ∈ store.clearAnObjectStore.indexSet,
      (store.clearAnObjectStore.index ref).records = [] := by
    intro ref mem
    rw [clear_an_object_store_index_set] at mem
    unfold clearAnObjectStore
    rw [indexSet, fold_visit_index (fun idx => { idx with records := [] })
      index_clear_records_index _ distinct, if_pos mem]
  refine .of_fits ?_ fun ref mem => fits_of_empty (noIndexRecords ref mem)
  rw [noRecords]
  exact List.Pairwise.nil

/-! ## Storing into the indexes -/

theorem store_subkeys_shape (store : ObjectStore Data) (ref : IndexRef) (key : Key)
    (subkeys : List Key) :
    (subkeys.foldl (fun store subkey =>
        store.indexStoreARecord ref { key := subkey, value := key }) store).detached =
      store.detached.setIndexRecords ref
        ((subkeys.map fun subkey => { key := subkey, value := key }).foldl
          (insertAscending IndexRecord.sortKey) (store.index ref).records) := by
  rw [← fold_index_store, foldl_map]
  induction subkeys generalizing store with
  | nil => rfl
  | cons _ _ ih =>
    rw [foldl_cons, ih]
    rfl

def Unreferenced (store : ObjectStore Data) (key : Key) (ref : IndexRef) : Prop :=
  ∀ record ∈ (store.index ref).records, record.value.unsigned ≠ key.unsigned

theorem store_subkeys_frame (stored : after = subkeys.foldl (fun store subkey =>
      store.indexStoreARecord ref { key := subkey, value := key }) store) :
    after.records = store.records ∧ after.indexSet = store.indexSet ∧
      (∀ other, other ≠ ref → after.index other = store.index other) ∧
      after.index ref = { store.index ref with
        records := (subkeys.map fun subkey => { key := subkey, value := key }).foldl
          (insertAscending IndexRecord.sortKey) (store.index ref).records } := by
  have shape := store_subkeys_shape store ref key subkeys
  rw [← stored] at shape
  have recordsSame := congrArg records shape
  have indexSetSame := congrArg indexSet shape
  have indexSame := congrArg index shape
  exact ⟨recordsSame, indexSetSame,
    fun other different => (congrFun indexSame other).trans (update_of_ne different _ _),
    (congrFun indexSame ref).trans (update_self _ _ _)⟩

include intact mem in
theorem Integrity.store_subkeys
    (distinct : subkeys.Pairwise fun left right => left.unsigned ≠ right.unsigned)
    (present : ∃ stored ∈ store.records, stored.key = key)
    (absent : store.Unreferenced key ref) (free : (store.index ref).unique = true →
      ∀ subkey ∈ subkeys, ∀ record ∈ (store.index ref).records,
        record.key.unsigned ≠ subkey.unsigned) :
    (subkeys.foldl (fun store subkey =>
      store.indexStoreARecord ref { key := subkey, value := key }) store).Integrity := by
  generalize stored : subkeys.foldl (fun store subkey =>
    store.indexStoreARecord ref { key := subkey, value := key }) store = after
  obtain ⟨recordsFrame, indexSetFrame, elsewhere, here⟩ := store_subkeys_frame stored.symm
  have oldStrict := intact.indexes ref mem
  obtain ⟨asc, permuted⟩ := fold_insert_ascending oldStrict.ascending
  generalize (subkeys.map fun subkey => ({ key := subkey, value := key } : IndexRecord)).foldl
    (insertAscending IndexRecord.sortKey) (store.index ref).records = newRecords
    at here asc permuted
  have addedApart : (subkeys.map fun subkey =>
      ({ key := subkey, value := key } : IndexRecord)).Pairwise
        fun left right => left.key.unsigned ≠ right.key.unsigned := by
    rwa [pairwise_map]
  -- A new record differs from an old one in its value, and from another new one
  -- in its key.
  have apart : newRecords.Pairwise fun left right => left.sortKey ≠ right.sortKey := by
    apply permuted.symm.pairwise
    · apply pairwise_append.mpr
      refine ⟨addedApart.imp ?_, oldStrict.imp fun less => ne_of_lt less, ?_⟩
      · intro left right different same
        exact different (Prod.mk.inj (toLex.injective same)).1
      · intro added isNew old isOld same
        obtain ⟨subkey, _, rfl⟩ := mem_map.mp isNew
        exact absent old isOld (Prod.mk.inj (toLex.injective same)).2.symm
    · intro left right different
      exact different.symm
  refine .of_fits (by rw [recordsFrame]; exact intact.records) fun other inside => ?_
  rw [indexSetFrame] at inside
  rw [recordsFrame]
  by_cases same : other = ref
  · rw [same, here]
    refine ⟨asc.strictly apart, fun record listed => ?_, fun isUnique => ?_⟩
    · rcases mem_append.mp (permuted.subset listed) with isNew | isOld
      · obtain ⟨subkey, _, rfl⟩ := mem_map.mp isNew
        exact present
      · exact intact.referenced ref mem record isOld
    · apply permuted.symm.pairwise
      · apply pairwise_append.mpr
        refine ⟨addedApart, intact.unique ref mem isUnique, ?_⟩
        intro added isNew old isOld equal
        obtain ⟨subkey, listed, rfl⟩ := mem_map.mp isNew
        exact free isUnique subkey listed old isOld equal.symm
      · intro left right different
        exact different.symm
  · rw [elsewhere other same]
    exact intact.fits inside

def DistinctSubkeys (engine : Engine Value Data) (store : ObjectStore Data)
    (value : Value) : Prop :=
  ∀ ref ∈ store.indexSet, ∀ key,
    extractAKeyFromAValueUsingAKeyPath engine value (store.index ref).keyPath
        (store.index ref).multiEntry = .key key →
      (indexSubkeys (store.index ref).multiEntry key).Pairwise fun left right =>
        left.unsigned ≠ right.unsigned

include intact mem in
theorem index_has_record_iff :
    store.indexHasRecordWithKey ref key = true ↔
      ∃ record ∈ (store.index ref).records, record.key.unsigned = key.unsigned := by
  apply search_is_some_iff IndexRecord.key
  apply (intact.indexes ref mem).ascending.imp
  intro left right ordered
  exact (Prod.Lex.toLex_le_toLex.mp ordered).elim le_of_lt fun same => le_of_eq same.1

include intact mem in
theorem Integrity.store_into_index
    (distinct : DistinctSubkeys engine store val)
    (present : ∃ stored ∈ store.records, stored.key = key) (absent : store.Unreferenced key ref)
    (stored : storeIntoIndex engine val key store ref = some after) :
    after.Integrity ∧ after.records = store.records ∧ after.indexSet = store.indexSet ∧
      (∀ other, other ≠ ref → after.index other = store.index other) ∧
      ∃ records, after.index ref = { store.index ref with records := records } := by
  unfold storeIntoIndex at stored
  dsimp only at stored
  split at stored
  · cases stored
    exact ⟨intact, rfl, rfl, fun _ _ => rfl, _, rfl⟩
  · cases stored
    exact ⟨intact, rfl, rfl, fun _ _ => rfl, _, rfl⟩
  · rename_i indexKey extracted
    split_ifs at stored with clash
    cases stored
    obtain ⟨recordsFrame, indexSetFrame, elsewhere, here⟩ := store_subkeys_frame rfl
    refine ⟨?_, recordsFrame, indexSetFrame, elsewhere, _, here⟩
    apply intact.store_subkeys mem (distinct ref mem _ extracted) present absent
    intro isUnique subkey listed record old same
    apply clash
    rw [isUnique, Bool.true_and, any_eq_true]
    exact ⟨subkey, listed, (index_has_record_iff intact mem).mpr ⟨record, old, same⟩⟩

theorem Integrity.store_into_indexes {refs : List IndexRef} (refsDistinct : refs.Nodup)
    (intact : store.Integrity) (inside : ∀ ref ∈ refs, ref ∈ store.indexSet)
    (distinct : DistinctSubkeys engine store val)
    (present : ∃ stored ∈ store.records, stored.key = key)
    (absent : ∀ ref ∈ refs, store.Unreferenced key ref) :
    (storeIntoIndexes engine val key refs store).2.Integrity := by
  induction refs generalizing store with
  | nil => exact intact
  | cons ref _ ih =>
    obtain ⟨refApart, laterDistinct⟩ := nodup_cons.mp refsDistinct
    unfold storeIntoIndexes
    cases stored : storeIntoIndex engine val key store ref with
    | none => exact intact
    | some after =>
      obtain ⟨kept, records, indexSet, elsewhere, newRecords, here⟩ :=
        intact.store_into_index (inside ref (by simp)) distinct
          present (absent ref (by simp)) stored
      apply ih laterDistinct kept
      · intro other mem
        rw [indexSet]
        exact inside other (mem_cons_of_mem _ mem)
      · intro other mem indexKey extracted
        rw [indexSet] at mem
        by_cases same : other = ref
        · rw [same, here] at extracted ⊢
          exact distinct ref (inside ref (by simp)) indexKey extracted
        · rw [elsewhere other same] at extracted ⊢
          exact distinct other mem indexKey extracted
      · rwa [records]
      · intro other mem
        have different : other ≠ ref := fun same => refApart (same ▸ mem)
        unfold Unreferenced
        rw [elsewhere other different]
        exact absent other (mem_cons_of_mem _ mem)

include distinct in
theorem remove_existing_frame :
    (store.removeExisting key).indexSet = store.indexSet ∧ ∀ ref ∈ store.indexSet, ∃ records,
        (store.removeExisting key).index ref = { store.index ref with records := records } := by
  unfold removeExisting
  split_ifs
  · refine ⟨delete_records_index_set _ store, ?_⟩
    intro ref mem
    exact ⟨_, delete_records_index distinct _ ref mem⟩
  · exact ⟨rfl, fun ref _ => ⟨_, rfl⟩⟩

include intact in
theorem Integrity.store_with_key (indexesDistinct : store.indexSet.Nodup) {noOverwrite : Bool}
    (distinct : DistinctSubkeys engine store val) :
    (storeWithKey engine store val key noOverwrite).2.Integrity := by
  unfold storeWithKey
  split_ifs with refused
  · exact intact
  · have removed : (store.removeExisting key).Integrity := by
      unfold removeExisting
      split_ifs
      · exact intact.delete_records indexesDistinct _
      · exact intact
    have fresh := remove_existing_fresh intact.regular key
    obtain ⟨indexSet, idx⟩ := remove_existing_frame indexesDistinct
    let record : ObjectStoreRecord Data :=
      { key := key, value := engine.structuredSerializeForStorage val }
    have stored := removed.store_a_record record fresh
    have setSame : ((store.removeExisting key).storeARecord record).indexSet =
        store.indexSet := indexSet
    apply stored.store_into_indexes
    · rwa [setSame]
    · intro ref mem
      exact mem
    · intro ref mem indexKey extracted
      rw [setSame] at mem
      obtain ⟨records, here⟩ := idx ref mem
      have hereToo : ((store.removeExisting key).storeARecord record).index ref =
          { store.index ref with records := records } := here
      rw [hereToo] at extracted ⊢
      exact distinct ref mem indexKey extracted
    · refine ⟨record, ?_, rfl⟩
      rw [store_a_record_records]
      apply (insert_ascending_perm record removed.records.ascending).symm.subset
      exact mem_cons_self
    · -- An index record pointing at the key would point at a removed record.
      intro ref mem entry listed same
      obtain ⟨target, inside, keyed⟩ := removed.referenced ref mem entry listed
      exact fresh target inside ((congrArg KeyOf.unsigned keyed).trans same)

theorem KeyGeneratorStep.frame (step : KeyGeneratorStep before after) :
    after.records = before.records ∧ after.indexSet = before.indexSet ∧
      after.index = before.index := by
  rcases step with rfl | ⟨current, next, _, rfl⟩
  all_goals exact ⟨rfl, rfl, rfl⟩

include intact in
theorem Integrity.store_into_store (indexesDistinct : store.indexSet.Nodup)
    {key : Option Key} {noOverwrite : Bool}
    (distinct : ∀ given resolvedKey next,
      resolveKey engine store val key = some (.ok (resolvedKey, given), next) →
        DistinctSubkeys engine store given) {outcome : Except String Key}
    (stored : storeARecordIntoAnObjectStore engine store val key noOverwrite =
      some (outcome, after)) :
    after.Integrity := by
  obtain ⟨⟨resolution, next⟩, resolved, same⟩ := Option.map_eq_some_iff.mp stored
  obtain ⟨records, indexSet, idx⟩ := (resolve_key_step resolved).frame
  have kept := intact.congr records indexSet idx
  cases resolution with
  | error =>
    cases same
    exact kept
  | ok pair =>
    obtain rfl : (storeWithKey engine next pair.2 pair.1 noOverwrite).2 = after :=
      congrArg Prod.snd same
    apply kept.store_with_key (indexSet ▸ indexesDistinct)
    have extracted := distinct pair.2 pair.1 next resolved
    unfold DistinctSubkeys at extracted ⊢
    rwa [indexSet, idx]

/-! ## Runs -/

inductive Action (Value : Type) where
  | setMutationLog (attached : Bool)
  | createIndex (ref : IndexRef) (name : String) (keyPath : KeyPath)
      (unique multiEntry : Bool)
  | rehash (order : List IndexRef)
  | addOrPut (value : Value) (key : Option Key) (noOverwrite : Bool)
  | delete (range : IDBKeyRange)
  | clear

/-- One step of a store's life. A request that fails is reverted to the log
position it started at, as `asynchronously_execute_a_request` does. -/
def act (engine : Engine Value Data) (store : ObjectStore Data) :
    Action Value → Option (ObjectStore Data)
  | .setMutationLog attached =>
    some { store with mutationLog := if attached then some [] else none }
  | .createIndex ref name keyPath unique multiEntry =>
    store.createIndex ref name keyPath unique multiEntry
  | .rehash order =>
    if order.isPerm store.indexSet then some { store with indexSet := order } else none
  | .addOrPut value key noOverwrite =>
    match storeARecordIntoAnObjectStore engine store value key noOverwrite with
    | none => none
    | some (.ok _, after) => some after
    | some (.error _, after) => after.revertMutationsFrom store.mutationLogPosition
  | .delete range => some (store.deleteRecordsFromAnObjectStore range)
  | .clear => some store.clearAnObjectStore

/-- The value that reaches the indexes has no index key twice. -/
def NoRepeatedSubkey (engine : Engine Value Data) (store : ObjectStore Data) : Action Value → Prop
  | .addOrPut value key _ => ∀ given resolvedKey next,
      resolveKey engine store value key = some (.ok (resolvedKey, given), next) →
        DistinctSubkeys engine store given
  | _ => True

def Empty (store : ObjectStore Data) : Prop := store.records = [] ∧ store.indexSet = []

theorem Empty.integrity (empty : store.Empty) : store.Integrity := by
  apply Integrity.of_fits
  · rw [empty.1]
    exact List.Pairwise.nil
  · rw [empty.2]
    exact forall_mem_nil _

include intact distinct in
theorem Integrity.create_index {name : String} {keyPath : KeyPath} {unique multiEntry : Bool}
    (created : store.createIndex ref name keyPath unique multiEntry = some after) :
    after.Integrity ∧ after.indexSet.Nodup := by
  unfold createIndex at created
  dsimp only at created
  split_ifs at created with refused
  cases created
  simp only [Bool.or_eq_true, decide_eq_true_eq, not_or] at refused
  have new : ref ∉ store.indexSet := refused.1.1.1
  have old : ∀ other ∈ store.indexSet, other ≠ ref := fun other mem same =>
    new (same ▸ mem)
  refine ⟨.of_fits intact.records fun other mem => ?_, ?_⟩
  · rcases mem_append.mp mem with past | isNew
    · simp only [update_of_ne (old other past)]
      exact intact.fits past
    · exact fits_of_empty (by simp [mem_singleton.mp isNew])
  · exact nodup_append.mpr ⟨distinct, nodup_singleton ref, by
      simpa using fun other mem => old other mem⟩

include distinct in
theorem act_integrity {action : Action Value} (intact : store.Integrity)
    (allowed : NoRepeatedSubkey engine store action)
    (acted : act engine store action = some after) :
    after.Integrity ∧ after.indexSet.Nodup := by
  cases action with
  | setMutationLog =>
    cases acted
    exact ⟨intact.congr rfl rfl rfl, distinct⟩
  | createIndex ref name keyPath unique multiEntry =>
    exact intact.create_index distinct acted
  | rehash =>
    simp only [act] at acted
    split_ifs at acted with permuted
    cases acted
    have perm := isPerm_iff.mp permuted
    exact ⟨.of_fits intact.records fun ref mem => intact.fits (perm.subset mem),
      perm.nodup_iff.mpr distinct⟩
  | addOrPut val key noOverwrite =>
    simp only [act] at acted
    split at acted
    · cases acted
    · rename_i result next stored
      cases acted
      have kept := intact.store_into_store distinct allowed stored
      have recoverable :=
        store_into_store_recoverable intact.regular stored kept.regular.unambiguous
      exact ⟨kept, recoverable.indexSet ▸ distinct⟩
    · rename_i message failed stored
      have kept := intact.store_into_store distinct allowed stored
      have recoverable :=
        store_into_store_recoverable intact.regular stored kept.regular.unambiguous
      by_cases attached : store.mutationLog.isSome = true
      · rw [recoverable.revert attached] at acted
        cases acted
        exact ⟨intact, distinct⟩
      · -- Without a log the failed request keeps what it had done.
        rw [recoverable.revert_detached attached] at acted
        cases acted
        exact ⟨kept, recoverable.indexSet ▸ distinct⟩
  | delete range =>
    cases acted
    refine ⟨intact.delete_records distinct range, ?_⟩
    rwa [delete_records_index_set]
  | clear =>
    cases acted
    refine ⟨clear_an_object_store_integrity distinct, ?_⟩
    rwa [clear_an_object_store_index_set]

/-- In every run from an empty store in which no value has an index key twice, the
records and the index records are strictly increasing, every index record points
at a stored record, and a unique index has no two records with equal keys. -/
theorem run_integrity (engine : Engine Value Data) (start finish : ObjectStore Data)
    (empty : start.Empty) (run : Execution (act engine) (NoRepeatedSubkey engine) start finish) :
    finish.Integrity ∧ ∀ ref ∈ finish.indexSet, ∀ record ∈ (finish.index ref).records,
      (finish.indexReferencedValue record).isSome = true := by
  have kept : finish.Integrity ∧ finish.indexSet.Nodup := by
    apply run.invariant fun store => store.Integrity ∧ store.indexSet.Nodup
    · exact ⟨empty.integrity, by rw [empty.2]; exact nodup_nil⟩
    · intro store action next holds allowed acted
      exact act_integrity holds.2 holds.1 allowed acted
  exact ⟨kept.1, fun ref member record listed =>
    kept.1.referenced_value member listed⟩

def emptyStore : ObjectStore Key where
  name := "store"
  keyPath := none
  keyGenerator := none
  records := []
  indexSet := []
  index := fun _ =>
    { name := "", unique := false, multiEntry := false, keyPath := .string "",
      deleted := false, records := [] }
  mutationLog := none

def indexedStore : ObjectStore Key :=
  { emptyStore with
    indexSet := [0]
    index := Function.update emptyStore.index 0
      { name := "index", unique := true, multiEntry := true, keyPath := .string "",
        deleted := false, records := [] }
    mutationLog := some [.indexCreated 0] }

theorem indexed_store_reached (allowed : ObjectStore Key → Action Key → Prop)
    (logAllowed : allowed emptyStore (.setMutationLog true))
    (createAllowed : allowed { emptyStore with mutationLog := some [] }
      (.createIndex 0 "index" (.string "") true true)) :
    Execution (act Engine.keys) allowed emptyStore indexedStore :=
  Execution.tail _ (Execution.tail _ Execution.refl logAllowed rfl) createAllowed rfl

def addArray (key : Key) (subkeys : List Key) : Action Key :=
  .addOrPut (.array subkeys) (some key) true

theorem add_distinct_allowed :
    NoRepeatedSubkey Engine.keys indexedStore
      (addArray (.string [1]) [.string [7], .string [8]]) := by
  intro given resolvedKey next resolved ref mem key extracted
  obtain rfl : ref = 0 := by simpa [indexedStore] using mem
  have givenIs : KeyOf.array [.string [7], .string [8]] = given :=
    congrArg (fun result => result.1.toOption.elim given Prod.snd) (Option.some.inj resolved)
  rw [← givenIs] at extracted
  have keyIs : KeyOf.array [.string [7], .string [8]] = key := Conversion.key.inj extracted
  rw [← keyIs]
  decide

theorem distinct_array_integrity :
    ∃ finish, Execution (act Engine.keys) (NoRepeatedSubkey Engine.keys) emptyStore finish ∧
      (finish.index 0).records.length = 2 ∧ finish.Integrity := by
  have reached := indexed_store_reached (NoRepeatedSubkey Engine.keys) trivial trivial
  have run := Execution.tail _ reached add_distinct_allowed rfl
  exact ⟨_, run, rfl, (run_integrity Engine.keys emptyStore _ ⟨rfl, rfl⟩ run).1⟩

/-- Two equal elements of an array become two equal records of the unique index. -/
theorem repeated_array_breaks_integrity :
    ∃ finish, Execution (act Engine.keys) Unrestricted emptyStore finish ∧
      0 ∈ finish.indexSet ∧ (finish.index 0).unique = true ∧ (finish.index 0).records =
        [{ key := .string [7], value := .string [1] },
          { key := .string [7], value := .string [1] }] ∧
      ¬finish.Integrity := by
  have reached := indexed_store_reached Unrestricted trivial trivial
  have run := Execution.tail (addArray (.string [1]) [.string [7], .string [7]]) reached trivial rfl
  refine ⟨_, run, mem_singleton.mpr rfl, rfl, rfl, ?_⟩
  intro intact
  have apart := intact.unique 0 (mem_singleton.mpr rfl) rfl
  exact (pairwise_cons.mp apart).1 _ (mem_singleton.mpr rfl) rfl

end Ladybone.IndexedDB.ObjectStore
