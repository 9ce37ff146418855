import Ladybone.IndexedDB.Algorithms
import Ladybone.IndexedDB.RecordOrder

/-!
# Rolling a store back to a log position

Every mutator leaves behind entries that undo it. `Recoverable` states this
once; it composes along a run, so a sequence of operations is undone by
reverting the entries it appended, whatever the outcome of each operation.
-/

namespace Ladybone.IndexedDB.ObjectStore

open Support.SortedSearch ObjectStoreRecord Support.Journal List Option

variable {Value Data : Type} [DecidableEq Value]

section
variable (store : ObjectStore Data)

structure Sorted : Prop where
  records : StrictlyAscending ObjectStoreRecord.sortKey store.records
  indexes : ∀ ref ∈ store.indexSet, Ascending IndexRecord.sortKey (store.index ref).records

/-- No index holds two records that compare equal and differ, in the sign of a zero. -/
def Unambiguous : Prop :=
  ∀ ref ∈ store.indexSet, ∀ left ∈ (store.index ref).records,
    ∀ right ∈ (store.index ref).records, compareIndexRecords left right = 0 → left = right

instance : Decidable store.Unambiguous :=
  inferInstanceAs (Decidable (∀ ref ∈ store.indexSet, ∀ left ∈ (store.index ref).records,
    ∀ right ∈ (store.index ref).records, compareIndexRecords left right = 0 → left = right))

structure Regular : Prop extends Sorted store where
  unambiguous : Unambiguous store

def detached : ObjectStore Data :=
  { store with mutationLog := none }

end

/-- `after` came from `before` by mutations whose log entries undo them. -/
structure Recoverable (before after : ObjectStore Data) : Prop where
  regular : after.Regular
  indexSet : after.indexSet = before.indexSet
  logged : ∃ entries, after.mutationLog = before.mutationLog.map (· ++ entries) ∧
    Undone revertEntry before.detached entries after.detached

open Recoverable

variable {store before after : ObjectStore Data}

theorem Recoverable.refl (regular : store.Regular) :
    Recoverable store store where
  regular := regular
  indexSet := rfl
  logged := ⟨[], by simp, undone_nil _⟩

theorem Recoverable.trans {between : ObjectStore Data} (first : Recoverable before between)
    (second : Recoverable between after) :
    Recoverable before after where
  regular := second.regular
  indexSet := second.indexSet.trans first.indexSet
  logged := by
    obtain ⟨earlier, firstLog, firstUndone⟩ := first.logged
    obtain ⟨later, secondLog, secondUndone⟩ := second.logged
    refine ⟨earlier ++ later, ?_, undone_append _ firstUndone secondUndone⟩
    rw [secondLog, firstLog, Option.map_map]
    congr 1
    funext log
    simp

variable {entry : Entry Data} {key : Key} {records : List IndexRecord} {ref : IndexRef}
  {refs : List IndexRef} {engine : Engine Value Data}

theorem recoverable_of_entry (regular : after.Regular) (indexSet : after.indexSet = before.indexSet)
    (logged : after.mutationLog = before.mutationLog.map (· ++ [entry]))
    (inverse : revertEntry entry after.detached = some before.detached) :
    Recoverable before after where
  regular := regular
  indexSet := indexSet
  logged := ⟨[entry], logged, inverse⟩

/-- The indexes of `after` hold at least the records of those of `before`. -/
structure Grown (before after : ObjectStore Data) : Prop where
  indexSet : before.indexSet = after.indexSet
  records : ∀ ref, (before.index ref).records ⊆ (after.index ref).records

theorem Grown.refl : Grown store store := ⟨rfl, fun _ => Subset.refl _⟩

theorem Grown.trans {between : ObjectStore Data} (first : Grown before between)
    (second : Grown between after) : Grown before after :=
  ⟨first.indexSet.trans second.indexSet,
    fun ref => Subset.trans (first.records ref) (second.records ref)⟩

/-! ## The store's own records -/

theorem fold_store_a_record (store : ObjectStore Data) (records : List (ObjectStoreRecord Data)) :
    records.foldl storeARecord store.detached = { store.detached with
        records := records.foldl (insertAscending ObjectStoreRecord.sortKey) store.records } := by
  induction records generalizing store with
  | nil => rfl
  | cons record _ ih =>
    rw [foldl_cons, foldl_cons, ← store_a_record_records]
    exact ih { store with records := (store.storeARecord record).records }

section
variable (regular : store.Regular)

include regular

theorem recoverable_delete_records {deleted kept : List (ObjectStoreRecord Data)}
    (keptPart : kept.Sublist store.records) (split : (deleted ++ kept).Perm store.records) :
    Recoverable store { store.note (.recordsDeleted deleted) with records := kept } := by
  have strict : StrictlyAscending sortKey kept :=
    regular.records.sublist keptPart
  obtain ⟨asc, permuted⟩ := fold_insert_ascending strict.ascending
  have restored := eq_of_perm_strictly_ascending asc regular.records (permuted.trans split)
  apply recoverable_of_entry
  · exact ⟨⟨strict, regular.indexes⟩, regular.unambiguous⟩
  · rfl
  · rfl
  · simp only [revertEntry]
    rw [fold_store_a_record]
    simp only [restored]
    rfl

theorem remove_records_in_range_recoverable (range : IDBKeyRange) :
    Recoverable store (store.removeRecordsInRange range) := by
  unfold removeRecordsInRange
  split_ifs with empty
  · exact refl regular
  · obtain ⟨order, -, placed⟩ := record_range_at key regular.records.ascending
    obtain ⟨inside, outside⟩ := filter_eq_window order placed
    dsimp only
    split_ifs with nonempty
    · rw [inside, outside]
      exact recoverable_delete_records regular filter_sublist (filter_append_perm _ _)
    · exact refl regular

theorem clear_records_recoverable : Recoverable store store.clearRecords := by
  unfold clearRecords
  split_ifs with empty
  · exact refl regular
  · apply recoverable_delete_records regular (nil_sublist _)
    simp

theorem store_a_record_recoverable (record : ObjectStoreRecord Data)
    (fresh : ∀ other ∈ store.records, other.sortKey ≠ record.sortKey) :
    Recoverable store (store.storeARecord record) := by
  have strict := insert_ascending_strict record regular.records fresh
  have inserted := insert_ascending_perm record regular.records.ascending
  have shape : store.storeARecord record = { store.note (.recordStored record.key) with
        records := insertAscending sortKey store.records record } := by
    rw [← store_a_record_records]
    rfl
  -- The search must land on the one record with that key; erasing it leaves a
  -- sorted rearrangement of the old list.
  have hit : (findRecordWithKey (insertAscending sortKey store.records record)
      record.key).isSome = true := by
    apply (search_is_some_iff key strict.ascending).mpr
    exact ⟨record, inserted.symm.subset (by simp), rfl⟩
  obtain ⟨position, found⟩ := isSome_iff_exists.mp hit
  obtain ⟨erased, read, same⟩ := binary_search_sound _ _ found
  rw [KeyOf.compare_eq_zero] at same
  have erasedIs : erased = record := by
    have mem := inserted.subset (mem_of_getElem? read)
    exact (mem_cons.mp mem).resolve_right fun old => fresh erased old same.symm
  have removed := erase_idx_perm read
  rw [erasedIs] at removed
  have restored := eq_of_perm_strictly_ascending
    (strict.ascending.sublist (eraseIdx_sublist _ _)) regular.records
    ((perm_cons record).mp (removed.symm.trans inserted))
  rw [shape]
  apply recoverable_of_entry
  · exact ⟨⟨strict, regular.indexes⟩, regular.unambiguous⟩
  · rfl
  · rfl
  · simp only [revertEntry, removeRecordWithKey, detached, found, restored]
    rfl

/-! ## The key generator -/

def KeyGeneratorStep (before after : ObjectStore Data) : Prop :=
  after = before ∨ ∃ current next, before.keyGenerator = some current ∧
    after = { before.note (.keyGeneratorChanged current) with keyGenerator := some next }

omit regular in
theorem generate_a_key_step {outcome : Except String Nat}
    (generated : store.generateAKey = some (outcome, after)) : KeyGeneratorStep store after := by
  unfold generateAKey at generated
  cases generator : store.keyGenerator with
  | none => simp [generator] at generated
  | some cur =>
    simp only [generator] at generated
    split_ifs at generated with exhausted
    · exact .inl (congrArg Prod.snd (some.inj generated)).symm
    · exact .inr ⟨cur, _, generator, (congrArg Prod.snd (some.inj generated)).symm⟩

omit regular in
theorem possibly_update_step (updated : store.possiblyUpdateTheKeyGenerator key = some after) :
    KeyGeneratorStep store after := by
  unfold possiblyUpdateTheKeyGenerator at updated
  have unchanged : some store = some after → KeyGeneratorStep store after :=
    fun same => .inl (some.inj same).symm
  cases key with
  | number =>
    cases generator : store.keyGenerator with
    | none => simp [generator] at updated
    | some cur =>
      simp only [generator] at updated
      split at updated
      · split_ifs at updated with reached
        · exact .inr ⟨cur, _, generator, (some.inj updated).symm⟩
        · exact unchanged updated
      · exact unchanged updated
  | date | string | binary | array => exact unchanged updated

omit regular in
theorem KeyGeneratorStep.recoverable (step : KeyGeneratorStep before after)
    (regular : before.Regular) : Recoverable before after := by
  rcases step with rfl | ⟨cur, next, generator, rfl⟩
  · exact refl regular
  · apply recoverable_of_entry
    · exact ⟨⟨regular.records, regular.indexes⟩, regular.unambiguous⟩
    · rfl
    · rfl
    · simp [revertEntry, detached, note, ← generator]

/-! ## The indexes -/

theorem Regular.set_index_records (asc : Ascending IndexRecord.sortKey records)
    (distinct : ∀ left ∈ records, ∀ right ∈ records,
      compareIndexRecords left right = 0 → left = right) :
    ((store.note entry).setIndexRecords ref records).Regular where
  records := regular.records
  indexes := by
    intro other mem
    by_cases same : other = ref
    · subst same
      simpa [setIndexRecords] using asc
    · simpa [setIndexRecords, note, same] using regular.indexes other mem
  unambiguous := by
    intro other mem
    by_cases same : other = ref
    · subst same
      simpa [setIndexRecords] using distinct
    · simpa [setIndexRecords, note, same] using regular.unambiguous other mem

omit regular in
theorem fold_index_store (store : ObjectStore Data) (ref : IndexRef) (records : List IndexRecord) :
    records.foldl (fun store record => store.indexStoreARecord ref record) store.detached =
      store.detached.setIndexRecords ref
        (records.foldl (insertAscending IndexRecord.sortKey) (store.index ref).records) := by
  induction records generalizing store with
  | nil => simp [setIndexRecords, detached]
  | cons record _ ih =>
    have one : store.detached.indexStoreARecord ref record = store.detached.setIndexRecords ref
        (insertAscending IndexRecord.sortKey (store.index ref).records record) := by
      rw [← index_store_a_record_records]
      simp [indexStoreARecord, setIndexRecords, detached, note]
    rw [foldl_cons, one]
    have rest := ih (store.setIndexRecords ref
      (insertAscending IndexRecord.sortKey (store.index ref).records record))
    simpa [setIndexRecords, detached] using rest

section
variable (mem : ref ∈ store.indexSet)

include mem

theorem recoverable_delete_index_records {deleted kept : List IndexRecord}
    (keptPart : kept.Sublist (store.index ref).records)
    (split : (deleted ++ kept).Perm (store.index ref).records) :
    Recoverable store
      ((store.note (.indexRecordsDeleted ref deleted)).setIndexRecords ref kept) := by
  have order := regular.indexes ref mem
  have distinct := regular.unambiguous ref mem
  have keptOrder : Ascending IndexRecord.sortKey kept := order.sublist keptPart
  refine recoverable_of_entry (regular.set_index_records keptOrder fun left inLeft right inRight =>
    distinct left (keptPart.subset inLeft) right (keptPart.subset inRight)) rfl rfl ?_
  obtain ⟨asc, permuted⟩ := fold_insert_ascending keptOrder
  simp only [compare_index_records_eq] at distinct
  have restored := eq_of_perm_ascending asc order distinct (permuted.trans split)
  have refolded := fold_index_store (store.setIndexRecords ref kept) ref deleted
  simp only [setIndexRecords, detached, Function.update_self, restored] at refolded
  simp [revertEntry, setIndexRecords, note, detached, refolded]

theorem index_clear_records_recoverable : Recoverable store (store.indexClearRecords ref) := by
  unfold indexClearRecords
  split_ifs with empty
  · exact refl regular
  · apply recoverable_delete_index_records regular mem (nil_sublist _)
    simp

theorem index_store_a_record_recoverable (record : IndexRecord)
    (unambiguous : (store.indexStoreARecord ref record).Unambiguous) :
    Recoverable store (store.indexStoreARecord ref record) := by
  have order := regular.indexes ref mem
  have insertedOrder := insert_ascending_ascending record order
  have inserted := insert_ascending_perm record order
  have distinct := unambiguous ref mem
  rw [index_store_a_record_records] at distinct
  have shape : store.indexStoreARecord ref record =
      (store.note (.indexRecordStored ref record)).setIndexRecords ref
        (insertAscending IndexRecord.sortKey (store.index ref).records record) := by
    rw [← index_store_a_record_records]
    simp [indexStoreARecord, setIndexRecords]
  rw [shape]
  refine recoverable_of_entry (regular.set_index_records insertedOrder distinct) rfl rfl ?_
  -- The lower bound of the new record compares equal to it, so it is that record.
  obtain ⟨found, read, same⟩ := lower_bound_hits record insertedOrder
    ⟨record, inserted.symm.subset (by simp), rfl⟩
  have hit : compareIndexRecords found record = 0 :=
    compare_index_records_eq.mpr same
  have removed := erase_idx_perm read
  rw [distinct found (mem_of_getElem? read) record (inserted.symm.subset (by simp)) hit] at removed
  have oldDistinct := regular.unambiguous ref mem
  simp only [compare_index_records_eq] at oldDistinct
  have restored := eq_of_perm_ascending (insertedOrder.sublist (eraseIdx_sublist _ _)) order
    oldDistinct ((perm_cons record).mp (removed.symm.trans inserted))
  simp only [revertEntry, indexRemoveRecord, lower_bound_index_eq]
  simp [setIndexRecords, note, detached, read, hit, restored]

/-! ## The algorithms -/

omit regular mem in
theorem index_store_a_record_grown (store : ObjectStore Data) (record : IndexRecord) :
    Grown store (store.indexStoreARecord ref record) where
  indexSet := rfl
  records := by
    intro other
    by_cases same : other = ref
    · rw [same, index_store_a_record_records]
      unfold insertAscending
      split
      · exact subset_append_left _ _
      · split_ifs
        · exact subset_append_left _ _
        · exact subset_insertIdx _ _ _
    · simp [indexStoreARecord, setIndexRecords, note, same]

omit regular mem in
theorem store_subkeys_grown (store : ObjectStore Data) (subkeys : List Key) :
    Grown store (subkeys.foldl (fun store subkey =>
      store.indexStoreARecord ref { key := subkey, value := key }) store) := by
  induction subkeys generalizing store with
  | nil => exact .refl
  | cons _ _ ih => exact (index_store_a_record_grown store _).trans (ih _)

omit regular mem in
theorem store_into_index_cases {val : Value}
    (stored : storeIntoIndex engine val key store ref = some after) :
    after = store ∨ ∃ subkeys : List Key, after = subkeys.foldl (fun store subkey =>
      store.indexStoreARecord ref { key := subkey, value := key }) store := by
  unfold storeIntoIndex at stored
  dsimp only at stored
  split at stored
  · exact .inl (some.inj stored).symm
  · exact .inl (some.inj stored).symm
  · split_ifs at stored with clash
    exact .inr ⟨_, (some.inj stored).symm⟩

omit regular mem in
theorem store_into_indexes_grown {val : Value} (store : ObjectStore Data)
    (refs : List IndexRef) : Grown store (storeIntoIndexes engine val key refs store).2 := by
  induction refs generalizing store with
  | nil => exact .refl
  | cons ref _ ih =>
    unfold storeIntoIndexes
    cases stored : storeIntoIndex engine val key store ref with
    | none => exact .refl
    | some after =>
      rcases store_into_index_cases stored with rfl | ⟨subkeys, rfl⟩
      · exact ih after
      · exact (store_subkeys_grown store subkeys).trans (ih _)

omit mem in
theorem fold_indexes_recoverable {visit : ObjectStore Data → IndexRef → ObjectStore Data}
    (inside : ∀ ref ∈ refs, ref ∈ store.indexSet)
    (visited : ∀ (store : ObjectStore Data) (ref : IndexRef), store.Regular →
      ref ∈ store.indexSet → Recoverable store (visit store ref)) :
    Recoverable store (refs.foldl visit store) := by
  induction refs generalizing store with
  | nil => exact refl regular
  | cons ref _ ih =>
    have first := visited store ref regular (inside ref (by simp))
    apply first.trans
    apply ih first.regular
    intro other mem
    rw [first.indexSet]
    exact inside other (mem_cons_of_mem _ mem)

omit mem in
theorem delete_records_recoverable (range : IDBKeyRange) :
    Recoverable store (store.deleteRecordsFromAnObjectStore range) := by
  have removed := remove_records_in_range_recoverable regular range
  apply removed.trans
  apply fold_indexes_recoverable removed.regular
  · intro ref mem
    exact mem
  · intro other ref otherRegular mem
    unfold indexRemoveRecordsWithValueInRange
    dsimp only
    split_ifs with empty
    · exact refl otherRegular
    · exact recoverable_delete_index_records otherRegular mem filter_sublist
        (filter_append_perm _ _)

omit mem in
theorem clear_an_object_store_recoverable : Recoverable store store.clearAnObjectStore := by
  have cleared := clear_records_recoverable regular
  apply cleared.trans
  apply fold_indexes_recoverable cleared.regular
  · intro ref mem
    exact mem
  · intro other ref otherRegular mem
    exact index_clear_records_recoverable otherRegular mem

omit regular mem in
theorem Unambiguous.mono (unambiguous : after.Unambiguous) (grown : Grown before after) :
    before.Unambiguous := by
  intro other inside left inLeft right inRight
  rw [grown.indexSet] at inside
  exact unambiguous other inside left (grown.records other inLeft) right
    (grown.records other inRight)

theorem store_subkeys_recoverable {subkeys : List Key} (unambiguous : (subkeys.foldl
      (fun store subkey => store.indexStoreARecord ref { key := subkey, value := key })
      store).Unambiguous) :
    Recoverable store
      (subkeys.foldl (fun store subkey =>
        store.indexStoreARecord ref { key := subkey, value := key }) store) := by
  induction subkeys generalizing store with
  | nil => exact refl regular
  | cons subkey later ih =>
    have first := index_store_a_record_recoverable regular mem { key := subkey, value := key }
      (unambiguous.mono (store_subkeys_grown _ later))
    exact first.trans (ih first.regular (first.indexSet ▸ mem) unambiguous)

theorem store_into_index_recoverable {val : Value} (unambiguous : after.Unambiguous)
    (stored : storeIntoIndex engine val key store ref = some after) :
    Recoverable store after := by
  rcases store_into_index_cases stored with rfl | ⟨subkeys, rfl⟩
  · exact refl regular
  · exact store_subkeys_recoverable regular mem unambiguous

end

omit regular in
theorem store_into_indexes_recoverable {val : Value} {key : Key} (regular : store.Regular)
    (inside : ∀ ref ∈ refs, ref ∈ store.indexSet)
    (unambiguous : (storeIntoIndexes engine val key refs store).2.Unambiguous) :
    Recoverable store (storeIntoIndexes engine val key refs store).2 := by
  induction refs generalizing store with
  | nil => exact refl regular
  | cons ref later ih =>
    unfold storeIntoIndexes at unambiguous ⊢
    cases stored : storeIntoIndex engine val key store ref with
    | none => exact refl regular
    | some after =>
      rw [stored] at unambiguous
      have first := store_into_index_recoverable regular (inside ref (by simp))
        (unambiguous.mono (store_into_indexes_grown _ later)) stored
      apply first.trans
      apply ih first.regular _ unambiguous
      intro other mem
      rw [first.indexSet]
      exact inside other (mem_cons_of_mem _ mem)

theorem has_record_with_key_iff :
    store.hasRecordWithKey key = true ↔
      ∃ record ∈ store.records, record.sortKey = key.unsigned :=
  search_is_some_iff ObjectStoreRecord.key regular.records.ascending

omit regular in
theorem only_key_in_range {key other : Key} :
    (onlyKey key).isInRange other = true ↔ other.unsigned = key.unsigned := by
  unfold IDBKeyRange.isInRange IDBKeyRange.lowerBoundInRange IDBKeyRange.upperBoundInRange onlyKey
  simp only [KeyOf.compare_lt_zero, KeyOf.compare_eq_zero, KeyOf.compare_pos, Bool.not_false,
    Bool.and_true, Bool.and_eq_true, Bool.or_eq_true, decide_eq_true_eq]
  constructor
  · rintro ⟨above | same, below | equal⟩
    · exact absurd above (lt_asymm below)
    · exact equal
    all_goals exact same
  · intro same
    exact ⟨.inr same, .inr same⟩

theorem remove_records_in_range_records {range : IDBKeyRange} :
    (store.removeRecordsInRange range).records =
      store.records.filter fun record => !range.isInRange record.key := by
  obtain ⟨order, -, placed⟩ := record_range_at key regular.records.ascending
  obtain ⟨inside, outside⟩ := filter_eq_window order placed
  unfold removeRecordsInRange
  split_ifs with empty
  · rw [List.isEmpty_iff] at empty
    simp [empty]
  · dsimp only
    split_ifs with nonempty
    · exact outside
    · -- An empty window keeps every record.
      have none : store.records.filter (fun record => range.isInRange record.key) = [] := by
        rw [← inside, Nat.sub_eq_zero_of_le (Nat.le_of_not_lt nonempty)]
        rfl
      rw [filter_eq_nil_iff] at none
      symm
      rw [filter_eq_self]
      intro record mem
      simpa using none record mem

omit regular in
theorem index_removal_records {range : IDBKeyRange} :
    (refs.foldl (fun store ref => store.indexRemoveRecordsWithValueInRange ref range)
      store).records = store.records := by
  induction refs generalizing store with
  | nil => rfl
  | cons _ _ ih =>
    rw [foldl_cons, ih]
    unfold indexRemoveRecordsWithValueInRange
    dsimp only
    split_ifs
    all_goals rfl

theorem delete_records_records (range : IDBKeyRange) :
    (store.deleteRecordsFromAnObjectStore range).records =
      store.records.filter fun record => !range.isInRange record.key := by
  unfold deleteRecordsFromAnObjectStore
  rw [index_removal_records, remove_records_in_range_records regular]

theorem remove_existing_recoverable (key : Key) : Recoverable store (store.removeExisting key) := by
  unfold removeExisting
  split_ifs
  · exact delete_records_recoverable regular _
  · exact refl regular

theorem remove_existing_fresh (key : Key) :
    ∀ record ∈ (store.removeExisting key).records, record.sortKey ≠ key.unsigned := by
  intro record mem same
  unfold removeExisting at mem
  split_ifs at mem with present
  · rw [delete_records_records regular, mem_filter, only_key_in_range.mpr same] at mem
    cases mem.2
  · exact present ((has_record_with_key_iff regular).mpr ⟨record, mem, same⟩)

end

theorem store_with_key_recoverable (regular : store.Regular) {value : Value} {key : Key}
    {noOverwrite : Bool}
    (unambiguous : (storeWithKey engine store value key noOverwrite).2.Unambiguous) :
    Recoverable store (storeWithKey engine store value key noOverwrite).2 := by
  unfold storeWithKey at unambiguous ⊢
  split_ifs at unambiguous ⊢ with refused
  · exact refl regular
  · have removed := remove_existing_recoverable regular key
    have stored := store_a_record_recoverable removed.regular
      { key := key, value := engine.structuredSerializeForStorage value }
      (remove_existing_fresh regular key)
    apply (removed.trans stored).trans
    apply store_into_indexes_recoverable stored.regular _ unambiguous
    intro ref mem
    exact mem

omit [DecidableEq Value] in
theorem resolve_key_step {val : Value} {key : Option Key} {outcome : Except String (Key × Value)}
    (resolved : resolveKey engine store val key = some (outcome, after)) :
    KeyGeneratorStep store after := by
  unfold resolveKey at resolved
  split_ifs at resolved with generates
  · cases key with
    | none =>
      obtain ⟨⟨number, next⟩, generated, same⟩ := map_eq_some_iff.mp resolved
      obtain rfl : next = after := by
        cases number with
        | error => exact congrArg Prod.snd same
        | ok =>
          dsimp only at same
          split at same
          all_goals exact congrArg Prod.snd same
      exact generate_a_key_step generated
    | some key =>
      obtain ⟨next, updated, same⟩ := map_eq_some_iff.mp resolved
      obtain rfl : next = after := congrArg Prod.snd same
      exact possibly_update_step updated
  · obtain ⟨given, _, same⟩ := map_eq_some_iff.mp resolved
    exact .inl (congrArg Prod.snd same).symm

theorem store_into_store_recoverable (regular : store.Regular) {val : Value} {key : Option Key}
    {noOverwrite : Bool} {outcome : Except String Key}
    (stored : storeARecordIntoAnObjectStore engine store val key noOverwrite =
      some (outcome, after)) (unambiguous : after.Unambiguous) :
    Recoverable store after := by
  obtain ⟨⟨resolution, next⟩, resolved, same⟩ := map_eq_some_iff.mp stored
  have first := (resolve_key_step resolved).recoverable regular
  cases resolution with
  | error =>
    cases same
    exact first
  | ok pair =>
    obtain rfl : (storeWithKey engine next pair.2 pair.1 noOverwrite).2 = after :=
      congrArg Prod.snd same
    exact first.trans (store_with_key_recoverable first.regular unambiguous)

/-! ## Whole runs -/

inductive Operation (Value : Type) where
  | storeARecordIntoAnObjectStore (value : Value) (key : Option Key) (noOverwrite : Bool)
  | deleteRecordsFromAnObjectStore (range : IDBKeyRange)
  | clearAnObjectStore
  | generateAKey
  | possiblyUpdateTheKeyGenerator (key : Key)

/-- The store an operation leaves, whether it succeeded or failed; `none` when the
process crashed. -/
def perform (engine : Engine Value Data) (store : ObjectStore Data) :
    Operation Value → Option (ObjectStore Data)
  | .storeARecordIntoAnObjectStore value key noOverwrite =>
    (storeARecordIntoAnObjectStore engine store value key noOverwrite).map Prod.snd
  | .deleteRecordsFromAnObjectStore range => some (store.deleteRecordsFromAnObjectStore range)
  | .clearAnObjectStore => some store.clearAnObjectStore
  | .generateAKey => store.generateAKey.map Prod.snd
  | .possiblyUpdateTheKeyGenerator key => store.possiblyUpdateTheKeyGenerator key

def performAll (engine : Engine Value Data) :
    List (Operation Value) → ObjectStore Data → Option (ObjectStore Data)
  | [], store => some store
  | operation :: later, store =>
    (perform engine store operation).bind (performAll engine later)

theorem perform_recoverable (regular : store.Regular) {operation : Operation Value}
    (performed : perform engine store operation = some after) (unambiguous : after.Unambiguous) :
    Recoverable store after := by
  cases operation with
  | storeARecordIntoAnObjectStore val key noOverwrite =>
    obtain ⟨⟨outcome, next⟩, stored, rfl⟩ := map_eq_some_iff.mp performed
    exact store_into_store_recoverable regular stored unambiguous
  | deleteRecordsFromAnObjectStore range =>
    cases performed
    exact delete_records_recoverable regular range
  | clearAnObjectStore =>
    cases performed
    exact clear_an_object_store_recoverable regular
  | generateAKey =>
    obtain ⟨⟨outcome, next⟩, generated, rfl⟩ := map_eq_some_iff.mp performed
    exact (generate_a_key_step generated).recoverable regular
  | possiblyUpdateTheKeyGenerator key =>
    exact (possibly_update_step performed).recoverable regular

/-- In every state a run passes, no index holds two records that compare equal and
differ. -/
def UnambiguousThroughout (engine : Engine Value Data) :
    List (Operation Value) → ObjectStore Data → Prop
  | [], store => store.Unambiguous
  | operation :: later, store => store.Unambiguous ∧
      ∀ next ∈ perform engine store operation, UnambiguousThroughout engine later next

theorem UnambiguousThroughout.here {operations : List (Operation Value)}
    (unambiguous : UnambiguousThroughout engine operations store) : store.Unambiguous := by
  cases operations with
  | nil => exact unambiguous
  | cons => exact unambiguous.1

theorem perform_all_recoverable {operations : List (Operation Value)} (regular : store.Regular)
    (unambiguous : UnambiguousThroughout engine operations store)
    (performed : performAll engine operations store = some after) : Recoverable store after := by
  induction operations generalizing store with
  | nil =>
    cases performed
    exact refl regular
  | cons operation _ ih =>
    obtain ⟨next, first, rest⟩ := bind_eq_some_iff.mp performed
    have later := unambiguous.2 next first
    have step := perform_recoverable regular first later.here
    exact step.trans (ih step.regular later rest)

theorem Recoverable.revert (recoverable : Recoverable before after)
    (attached : before.mutationLog.isSome) :
    after.revertMutationsFrom before.mutationLogPosition = some before := by
  obtain ⟨entries, logged, undone⟩ := recoverable.logged
  obtain ⟨log, attachedLog⟩ := isSome_iff_exists.mp attached
  unfold revertMutationsFrom mutationLogPosition
  unfold Undone detached at undone
  simp only [attachedLog, logged, drop_left, take_left, undone, map_some]
  rw [← attachedLog]

theorem Recoverable.revert_detached (recoverable : Recoverable before after)
    (detached : ¬before.mutationLog.isSome) :
    after.revertMutationsFrom before.mutationLogPosition = some after := by
  obtain ⟨entries, logged, _⟩ := recoverable.logged
  rw [not_isSome_iff_eq_none.mp detached, map_none] at logged
  unfold revertMutationsFrom
  rw [logged]

/-- Rolling back to the position the log had before a run of operations, whatever
their outcomes, gives back the whole store: records, every index, the key
generator, and the attached log at its old length. -/
theorem revert_mutations_restores (engine : Engine Value Data)
    (operations : List (Operation Value)) (before after : ObjectStore Data)
    (log : List (Entry Data)) (attached : before.mutationLog = some log) (sorted : before.Sorted)
    (unambiguous : UnambiguousThroughout engine operations before)
    (performed : performAll engine operations before = some after) :
    after.revertMutationsFrom log.length = some before := by
  have regular : before.Regular := ⟨sorted, unambiguous.here⟩
  have recoverable := perform_all_recoverable regular unambiguous performed
  have position : before.mutationLogPosition = log.length := by
    unfold mutationLogPosition
    rw [attached]
  have restored := recoverable.revert (by rw [attached]; rfl)
  rwa [position] at restored

def singleRecordStore (unique multiEntry : Bool) (value : Key) : ObjectStore Key where
  name := "store"
  keyPath := none
  keyGenerator := some 1
  records := [{ key := .string [], value := value }]
  indexSet := [0]
  index := fun _ =>
    { name := "index", unique := unique, multiEntry := multiEntry, keyPath := .string "",
      deleted := false,
      records := [{ key := value, value := .string [] }] }
  mutationLog := some []

theorem single_record_store_sorted {unique multiEntry : Bool} {value : Key} :
    (singleRecordStore unique multiEntry value).Sorted where
  records := by simp [singleRecordStore, StrictlyAscending]
  indexes := by simp [singleRecordStore, Ascending]

def failingOperations : List (Operation Key) :=
  [.storeARecordIntoAnObjectStore (.binary []) none true,
    .deleteRecordsFromAnObjectStore (onlyKey (.string [])),
    .storeARecordIntoAnObjectStore (.number .negativeZero) (some (.array [])) false,
    .clearAnObjectStore]

theorem failing_operations_unambiguous :
    UnambiguousThroughout Engine.keys failingOperations
      (singleRecordStore true false (.binary [])) := by
  refine ⟨by decide +kernel, fun _ first => ?_⟩
  cases first
  refine ⟨by decide +kernel, fun _ second => ?_⟩
  cases second
  refine ⟨by decide +kernel, fun _ third => ?_⟩
  cases third
  refine ⟨by decide +kernel, fun _ last => ?_⟩
  cases last
  change Unambiguous _
  decide +kernel

theorem failing_operations_revert :
    ∃ after, performAll Engine.keys failingOperations
        (singleRecordStore true false (.binary [])) = some after ∧
      after.revertMutationsFrom 0 = some (singleRecordStore true false (.binary [])) :=
  ⟨_, rfl, revert_mutations_restores Engine.keys failingOperations _ _ []
    rfl single_record_store_sorted failing_operations_unambiguous rfl⟩

/-- A multiEntry index gets the two zeros of one array. They compare equal, so the
revert of a deletion inserts them again in the other order. -/
theorem reverted_zeros_change_places :
    ∃ before after reverted,
      performAll Engine.keys
        [.storeARecordIntoAnObjectStore
          (.array [.number .negativeZero, .number (.ofNat 0)]) (some (.string [2])) false]
        (singleRecordStore false true (.number (.ofNat 5))) = some before ∧
      before.Sorted ∧
      performAll Engine.keys [.deleteRecordsFromAnObjectStore (onlyKey (.string [2]))] before =
        some after ∧
      after.revertMutationsFrom before.mutationLogPosition = some reverted ∧
      (before.index 0).records.map IndexRecord.key =
        [.number (.ofNat 0), .number .negativeZero, .number (.ofNat 5)] ∧
      (reverted.index 0).records.map IndexRecord.key =
        [.number .negativeZero, .number (.ofNat 0), .number (.ofNat 5)] := by
  refine ⟨_, _, _, rfl, ⟨?_, ?_⟩, rfl, rfl, by decide +kernel, by decide +kernel⟩
  · unfold StrictlyAscending
    decide +kernel
  · unfold Ascending
    decide +kernel

end Ladybone.IndexedDB.ObjectStore
