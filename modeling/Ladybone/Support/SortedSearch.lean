import Mathlib.Data.List.Sort
import Mathlib.Data.List.TakeWhile
import Mathlib.Data.List.Perm.Basic

/-!
# Bisection over sorted vectors

Two bisection loops over a list indexed from zero, written the way array code
writes them: one returns the first position at which a monotone test stops
holding, the other looks for an element that a three-way test accepts. The
results are stated over an arbitrary key into a linear order, so that a vector
of records sorted by one of their fields is covered.
-/

namespace Ladybone.Support.SortedSearch

open List

variable {Item Key : Type*}

/-- The window `[low, high)` shrinks by at least one element each round, so its
width is enough fuel. -/
def partitionLoop (below : Item → Bool) (items : List Item) : Nat → Nat → Nat → Nat
  | 0, low, _ => low
  | fuel + 1, low, high =>
    if low < high then
      let middle := low + (high - low) / 2
      if items[middle]?.any below then
        partitionLoop below items fuel (middle + 1) high
      else
        partitionLoop below items fuel low middle
    else low

def partitionPoint (below : Item → Bool) (items : List Item) (start : Nat) : Nat :=
  partitionLoop below items items.length start items.length

/-- `below` holds on exactly the first `boundary` elements. -/
def PartitionedAt (below : Item → Bool) (items : List Item) (boundary : Nat) : Prop :=
  boundary ≤ items.length ∧
    ∀ position item, items[position]? = some item → (below item = true ↔ position < boundary)

theorem partition_loop_eq {below : Item → Bool} (items : List Item) (boundary : Nat)
    (partitioned : PartitionedAt below items boundary) (fuel low high : Nat) (ordered : low ≤ high)
    (inside : high ≤ items.length) (reached : boundary ≤ high) (enough : high - low ≤ fuel) :
    partitionLoop below items fuel low high = max low boundary := by
  induction fuel generalizing low high with
  | zero =>
    simp only [partitionLoop]
    omega
  | succ _ ih =>
    simp only [partitionLoop]
    by_cases open_ : low < high
    · rw [if_pos open_]
      have middleInside : low + (high - low) / 2 < items.length := by omega
      have read := getElem?_eq_getElem middleInside
      have split := partitioned.2 _ _ read
      rw [read, Option.any_some]
      by_cases left : low + (high - low) / 2 < boundary
      · rw [if_pos (split.mpr left)]
        rw [ih _ _ (by omega) inside reached (by omega)]
        omega
      · rw [if_neg (fun holds => left (split.mp holds))]
        rw [ih _ _ (by omega) (by omega) (by omega) (by omega)]
    · rw [if_neg open_]
      omega

/-- The inclusive window of the exact search. `probe` is negative when the
element sought lies before the one read. -/
def searchLoop (probe : Item → Int) (items : List Item) : Nat → Nat → Nat → Option Nat
  | 0, _, _ => none
  | fuel + 1, low, high =>
    if low ≤ high then
      let middle := low + (high - low) / 2
      match items[middle]? with
      | none => none
      | some item =>
        if probe item < 0 then
          if middle ≠ 0 then searchLoop probe items fuel low (middle - 1)
          else none
        else if 0 < probe item then
          searchLoop probe items fuel (middle + 1) high
        else some middle
    else none

section
variable (probe : Item → Int) (items : List Item)

def binarySearch : Option Nat :=
  if items.length = 0 then none
  else searchLoop probe items items.length 0 (items.length - 1)

theorem search_loop_sound (fuel low high found : Nat)
    (res : searchLoop probe items fuel low high = some found) :
    ∃ item, items[found]? = some item ∧ probe item = 0 := by
  induction fuel generalizing low high with
  | zero => simp [searchLoop] at res
  | succ _ ih =>
    simp only [searchLoop] at res
    split at res
    · cases read : items[low + (high - low) / 2]? with
      | none => simp [read] at res
      | some item =>
        simp only [read] at res
        split_ifs at res with before first after
        · exact ih _ _ res
        · exact ih _ _ res
        · cases res
          exact ⟨item, read, by omega⟩
    · cases res

theorem binary_search_sound {found : Nat} (res : binarySearch probe items = some found) :
    ∃ item, items[found]? = some item ∧ probe item = 0 := by
  unfold binarySearch at res
  split_ifs at res
  exact search_loop_sound probe items _ _ _ _ res

/-- The probe never rises again along the list, up to its sign. -/
def ProbeFalls : Prop :=
  items.Pairwise fun left right =>
    (probe left < 0 → probe right < 0) ∧ (0 < probe right → 0 < probe left)

theorem search_loop_finds (falls : ProbeFalls probe items) {target : Nat}
    (targetInside : target < items.length) (accepted : probe items[target] = 0)
    (fuel low high : Nat) (lower : low ≤ target) (upper : target ≤ high)
    (inside : high < items.length) (enough : high - low < fuel) :
    (searchLoop probe items fuel low high).isSome := by
  induction fuel generalizing low high with
  | zero => omega
  | succ _ ih =>
    have middleInside : low + (high - low) / 2 < items.length := by omega
    have ordered := pairwise_iff_getElem.mp falls
    simp only [searchLoop]
    rw [if_pos (by omega : low ≤ high), getElem?_eq_getElem middleInside]
    dsimp only
    by_cases before : probe items[low + (high - low) / 2] < 0
    · have targetBefore : target < low + (high - low) / 2 := by
        rcases Nat.lt_trichotomy target (low + (high - low) / 2) with h | h | h
        · exact h
        · subst h
          omega
        · have := (ordered _ _ middleInside targetInside h).1 before
          omega
      rw [if_pos before, if_pos (by omega)]
      exact ih _ _ lower (by omega) (by omega) (by omega)
    · rw [if_neg before]
      by_cases after : 0 < probe items[low + (high - low) / 2]
      · have targetAfter : low + (high - low) / 2 < target := by
          rcases Nat.lt_trichotomy target (low + (high - low) / 2) with h | h | h
          · have := (ordered _ _ targetInside middleInside h).2 after
            omega
          · subst h
            omega
          · exact h
        rw [if_pos after]
        exact ih _ _ (by omega) upper inside (by omega)
      · rw [if_neg after]
        rfl

theorem binary_search_is_some_iff (falls : ProbeFalls probe items) :
    (binarySearch probe items).isSome = true ↔ ∃ item ∈ items, probe item = 0 := by
  constructor
  · intro found
    obtain ⟨pos, res⟩ := Option.isSome_iff_exists.mp found
    obtain ⟨item, read, accepted⟩ := binary_search_sound probe items res
    exact ⟨item, mem_of_getElem? read, accepted⟩
  · rintro ⟨item, mem, accepted⟩
    obtain ⟨target, targetInside, read⟩ := mem_iff_getElem.mp mem
    unfold binarySearch
    rw [if_neg (by omega)]
    exact search_loop_finds probe items falls targetInside (by rw [read]; exact accepted)
      _ _ _ (Nat.zero_le _) (by omega) (by omega) (by omega)

end

section
variable [LinearOrder Key] (key : Item → Key) (items : List Item)

def Ascending : Prop :=
  items.Pairwise fun left right => key left ≤ key right

def StrictlyAscending : Prop :=
  items.Pairwise fun left right => key left < key right

section
variable {key items} (asc : Ascending key items) (strict : StrictlyAscending key items)

include strict in
theorem StrictlyAscending.ascending : Ascending key items :=
  strict.imp fun less => le_of_lt less

include strict in
theorem StrictlyAscending.eq_of_key_eq {left right : Item} (inLeft : left ∈ items)
    (inRight : right ∈ items) (same : key left = key right) : left = right := by
  revert same
  refine Pairwise.forall_of_forall_of_flip (R := fun left right => key left = key right →
    left = right) (fun _ _ _ => rfl) ?_ ?_ inLeft inRight
  · exact strict.imp fun less same => absurd same (ne_of_lt less)
  · exact strict.imp fun less same => absurd same (ne_of_gt less)

include asc in
theorem Ascending.strictly (distinct : items.Pairwise fun left right => key left ≠ key right) :
    StrictlyAscending key items :=
  asc.imp₂ (fun _ _ => lt_of_le_of_ne) distinct

end

section
variable (below : Item → Bool)
  (closed : items.Pairwise fun left right => below right = true → below left = true)

include closed

theorem rejected_of_mem_drop_while : ∀ item ∈ items.dropWhile below, ¬below item = true := by
  induction items with
  | nil => simp
  | cons head _ ih =>
    obtain ⟨first, later⟩ := pairwise_cons.mp closed
    by_cases accepted : below head = true
    · rw [dropWhile_cons_of_pos accepted]
      exact ih later
    · rw [dropWhile_cons_of_neg accepted]
      exact forall_mem_cons.mpr ⟨accepted, fun item mem holds => accepted (first item mem holds)⟩

theorem partitioned_at_take_while : PartitionedAt below items (items.takeWhile below).length := by
  refine ⟨(takeWhile_sublist _).length_le, fun pos item read => ?_⟩
  rw [← takeWhile_append_dropWhile (p := below) (l := items)] at read
  by_cases inside : pos < (items.takeWhile below).length
  · rw [getElem?_append_left inside] at read
    exact iff_of_true (mem_takeWhile_imp (mem_of_getElem? read)) inside
  · rw [getElem?_append_right (Nat.not_lt.mp inside)] at read
    exact iff_of_false (rejected_of_mem_drop_while _ _ closed item (mem_of_getElem? read)) inside

theorem partition_point_of_closed {start : Nat} (startInside : start ≤ items.length) :
    partitionPoint below items start = max start (items.takeWhile below).length := by
  have partitioned := partitioned_at_take_while items below closed
  exact partition_loop_eq items _ partitioned _ _ _ startInside (Nat.le_refl _)
    partitioned.1 (by omega)

end

theorem filter_eq_window {accepts : Item → Bool} {items : List Item} {low high : Nat}
    (order : low ≤ high) (placed : ∀ position item, items[position]? = some item →
      (low ≤ position ∧ position < high ↔ accepts item = true)) :
    (items.drop low).take (high - low) = items.filter accepts ∧
      items.take low ++ items.drop high = items.filter fun item => !accepts item := by
  induction items generalizing low high with
  | nil => simp
  | cons head tail ih =>
    have here := placed 0 head rfl
    have later := @ih (low - 1) (high - 1) (by omega) fun pos item read => by
      rw [← placed (pos + 1) item read]
      omega
    rcases low with _ | low <;> rcases high with _ | high
    · have rejected : accepts head = false := by simpa using here
      simpa [rejected] using later
    · have accepted : accepts head = true := by simpa using here
      simpa [accepted] using later
    · omega
    · have rejected : accepts head = false := by simpa using here
      simpa [rejected] using later

/-- Append when the new item does not sort before the last one, otherwise
insert it at the first position that does not sort before it. -/
def insertAscending (item : Item) : List Item :=
  match items.getLast? with
  | none => items ++ [item]
  | some last =>
    if key last ≤ key item then items ++ [item]
    else items.insertIdx (partitionPoint (fun other => key other < key item) items 0) item

theorem insert_idx_at_length {front back : List Item} (item : Item) :
    (front ++ back).insertIdx front.length item = front ++ item :: back := by
  induction front with
  | nil => rfl
  | cons _ _ ih => exact congrArg (List.cons _) ih

variable {key items} (item : Item) (asc : Ascending key items)

section

include asc

theorem lower_bound_splits :
    ∃ front back, items = front ++ back ∧
      partitionPoint (fun other => key other < key item) items 0 = front.length ∧
      (∀ other ∈ front, key other < key item) ∧ ∀ other ∈ back, key item ≤ key other := by
  have closed : items.Pairwise fun left right =>
      decide (key right < key item) = true → decide (key left < key item) = true := by
    refine asc.imp ?_
    intro left right ordered
    simp only [decide_eq_true_eq]
    exact lt_of_le_of_lt ordered
  refine ⟨items.takeWhile fun other => decide (key other < key item), _,
    takeWhile_append_dropWhile.symm, ?_, ?_, ?_⟩
  · exact (partition_point_of_closed items _ closed (Nat.zero_le _)).trans (Nat.zero_max _)
  · intro other mem
    simpa using mem_takeWhile_imp mem
  · intro other mem
    simpa using rejected_of_mem_drop_while _ _ closed other mem

theorem insert_ascending_shape :
    ∃ front back, items = front ++ back ∧ insertAscending key items item = front ++ item :: back ∧
        (∀ other ∈ front, key other ≤ key item) ∧ (∀ other ∈ back, key item ≤ key other) := by
  unfold insertAscending
  cases final : items.getLast? with
  | none =>
    have empty : items = [] := getLast?_eq_none_iff.mp final
    exact ⟨[], [], by simp [empty], by simp [empty], by simp, by simp⟩
  | some last =>
    dsimp only
    by_cases appended : key last ≤ key item
    · rw [if_pos appended]
      refine ⟨items, [], by simp, rfl, ?_, by simp⟩
      obtain ⟨initial, rfl⟩ := getLast?_eq_some_iff.mp final
      refine forall_mem_append.mpr ⟨fun other early => ?_, forall_mem_singleton.mpr appended⟩
      exact le_trans ((pairwise_append.mp asc).2.2 other early last (by simp)) appended
    · obtain ⟨front, back, whole, bound, before, after⟩ := lower_bound_splits item asc
      rw [if_neg appended, bound]
      refine ⟨front, back, whole, ?_, fun other mem => le_of_lt (before other mem), after⟩
      rw [whole, insert_idx_at_length]

theorem insert_ascending_perm : (insertAscending key items item).Perm (item :: items) := by
  obtain ⟨front, back, whole, inserted, _⟩ := insert_ascending_shape item asc
  rw [inserted, whole]
  exact perm_middle

theorem insert_ascending_ascending : Ascending key (insertAscending key items item) := by
  obtain ⟨front, back, whole, inserted, before, after⟩ := insert_ascending_shape item asc
  rw [inserted]
  rw [whole] at asc
  obtain ⟨frontOrder, backOrder, crossing⟩ := pairwise_append.mp asc
  refine pairwise_append.mpr ⟨frontOrder, pairwise_cons.mpr ⟨after, backOrder⟩, ?_⟩
  intro left leftMember
  exact forall_mem_cons.mpr ⟨before left leftMember, crossing left leftMember⟩

theorem lower_bound_hits (present : ∃ other ∈ items, key other = key item) :
    ∃ found, items[partitionPoint (fun other => key other < key item) items 0]? =
      some found ∧ key found = key item := by
  obtain ⟨front, back, whole, bound, before, after⟩ := lower_bound_splits item asc
  obtain ⟨other, mem, same⟩ := present
  rw [bound, whole]
  rw [whole] at mem asc
  have late : other ∈ back := by
    exact (mem_append.mp mem).resolve_left fun early => ne_of_lt (before other early) same
  cases back with
  | nil => cases late
  | cons found remaining =>
    refine ⟨found, by simp, le_antisymm ?_ (after found mem_cons_self)⟩
    rcases mem_cons.mp late with equal | later
    · rw [← equal, same]
    · rw [← same]
      exact (pairwise_cons.mp (pairwise_append.mp asc).2.1).1 other later

omit asc in
theorem insert_ascending_strict (strict : StrictlyAscending key items)
    (fresh : ∀ other ∈ items, key other ≠ key item) :
    StrictlyAscending key (insertAscending key items item) := by
  have asc := strict.ascending
  refine (insert_ascending_ascending item asc).strictly ?_
  refine (insert_ascending_perm item asc).symm.pairwise ?_ ?_
  · refine pairwise_cons.mpr ⟨?_, strict.imp fun less => ne_of_lt less⟩
    intro other mem
    exact (fresh other mem).symm
  · intro left right distinct
    exact distinct.symm

theorem fold_insert_ascending {added : List Item} :
    Ascending key (added.foldl (insertAscending key) items) ∧
      (added.foldl (insertAscending key) items).Perm (added ++ items) := by
  induction added generalizing items with
  | nil => exact ⟨asc, List.Perm.refl _⟩
  | cons item added ih =>
    obtain ⟨sorted, permuted⟩ := ih (insert_ascending_ascending item asc)
    refine ⟨sorted, ?_⟩
    have inserted := insert_ascending_perm item asc
    exact permuted.trans ((inserted.append_left added).trans perm_middle)

end

theorem eq_of_perm_strictly_ascending {left right : List Item}
    (leftOrder : Ascending key left) (rightOrder : StrictlyAscending key right)
    (permuted : left.Perm right) : left = right := by
  have distinct : left.Pairwise fun first second => key first ≠ key second :=
    permuted.symm.pairwise (rightOrder.imp fun less => ne_of_lt less) fun apart => apart.symm
  apply permuted.eq_of_pairwise _ (leftOrder.strictly distinct) rightOrder
  intro first second _ _ below above
  exact absurd below (lt_asymm above)

theorem eq_of_perm_ascending {left right : List Item} (leftOrder : Ascending key left)
    (rightOrder : Ascending key right)
    (injective : ∀ first ∈ right, ∀ second ∈ right, key first = key second → first = second)
    (permuted : left.Perm right) : left = right := by
  apply permuted.eq_of_pairwise _ leftOrder rightOrder
  intro first second inLeft inRight below above
  exact injective first (permuted.subset inLeft) second inRight (le_antisymm below above)

theorem erase_idx_perm {pos : Nat} {item : Item} (read : items[pos]? = some item) :
    items.Perm (item :: items.eraseIdx pos) := by
  obtain ⟨inside, same⟩ := List.getElem?_eq_some_iff.mp read
  rw [← same]
  exact (getElem_cons_eraseIdx_perm inside).symm

end
end Ladybone.Support.SortedSearch
