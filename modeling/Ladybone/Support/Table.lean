import Mathlib.Data.List.Nodup

/-!
# Tables

Finite maps as lists of entries with distinct keys. The list is the order in which the entries
are visited; nothing below depends on it.
-/

namespace Ladybone.Support

open List

structure Table (Key Value : Type*) where
  entries : List (Key × Value)
  distinct : (entries.map Prod.fst).Nodup

namespace Table

variable {Key Value : Type*}

def empty : Table Key Value := ⟨[], nodup_nil⟩

def discard (matching : Key → Value → Bool) (table : Table Key Value) : Table Key Value where
  entries := table.entries.filter fun entry => !matching entry.1 entry.2
  distinct := table.distinct.sublist (filter_sublist.map Prod.fst)

def mapValues (change : Value → Value) (table : Table Key Value) : Table Key Value where
  entries := table.entries.map fun entry => (entry.1, change entry.2)
  distinct := by
    rw [map_map]
    exact table.distinct

variable [DecidableEq Key]

def find (key : Key) : List (Key × Value) → Option Value
  | [] => none
  | entry :: rest => if entry.1 = key then some entry.2 else find key rest

def get (table : Table Key Value) (key : Key) : Option Value := find key table.entries

/-- Replaces the value of a key in place, or adds an entry. -/
def put (key : Key) (value : Value) : List (Key × Value) → List (Key × Value)
  | [] => [(key, value)]
  | entry :: rest => if entry.1 = key then (key, value) :: rest else entry :: put key value rest

variable {key other : Key} {val : Value} {entries : List (Key × Value)} {table : Table Key Value}

theorem mem_keys_put (mem : other ∈ (put key val entries).map Prod.fst) :
    other = key ∨ other ∈ entries.map Prod.fst := by
  induction entries with
  | nil => exact .inl (mem_singleton.mp mem)
  | cons _ _ ih =>
    unfold put at mem
    split_ifs at mem with same
    · exact (mem_cons.mp mem).imp_right (mem_cons_of_mem _)
    · rcases mem_cons.mp mem with isEntry | inRest
      · exact .inr (isEntry ▸ mem_cons_self)
      · exact (ih inRest).imp_right (mem_cons_of_mem _)

theorem nodup_put (distinct : (entries.map Prod.fst).Nodup) :
    ((put key val entries).map Prod.fst).Nodup := by
  induction entries with
  | nil => exact nodup_singleton key
  | cons _ _ ih =>
    rw [map_cons, nodup_cons] at distinct
    unfold put
    split_ifs with same
    · rwa [map_cons, nodup_cons, ← same]
    · rw [map_cons, nodup_cons]
      refine ⟨fun mem => ?_, ih distinct.2⟩
      rcases mem_keys_put mem with isKey | inRest
      · exact same isKey
      · exact distinct.1 inRest

def set (key : Key) (value : Value) (table : Table Key Value) : Table Key Value where
  entries := put key value table.entries
  distinct := nodup_put table.distinct

theorem find_put_self : find key (put key val entries) = some val := by
  induction entries with
  | nil => exact if_pos rfl
  | cons _ _ ih =>
    unfold put
    split_ifs with same
    · exact if_pos rfl
    · exact (if_neg same).trans ih

theorem find_put_of_ne (differs : other ≠ key) :
    find other (put key val entries) = find other entries := by
  induction entries with
  | nil => exact if_neg (Ne.symm differs)
  | cons _ _ ih =>
    unfold put
    split_ifs with same
    · unfold find
      rw [if_neg (Ne.symm differs), if_neg (same ▸ Ne.symm differs)]
    · unfold find
      rw [ih]

@[simp]
theorem get_set_self : (table.set key val).get key = some val :=
  find_put_self

theorem get_set_of_ne (differs : other ≠ key) : (table.set key val).get other = table.get other :=
  find_put_of_ne differs

theorem find_eq_some_iff (distinct : (entries.map Prod.fst).Nodup) :
    find key entries = some val ↔ (key, val) ∈ entries := by
  induction entries with
  | nil => simp [find]
  | cons _ _ ih =>
    rw [map_cons, nodup_cons] at distinct
    unfold find
    split_ifs with same
    · subst same
      constructor
      · rintro ⟨⟩
        exact mem_cons_self
      · intro mem
        rcases mem_cons.mp mem with isEntry | inRest
        · rw [← isEntry]
        · exact absurd (mem_map_of_mem inRest) distinct.1
    · rw [ih distinct.2, mem_cons]
      constructor
      · exact .inr
      · rintro (isEntry | inRest)
        · exact absurd (congrArg Prod.fst isEntry).symm same
        · exact inRest

theorem get_eq_some_iff : table.get key = some val ↔ (key, val) ∈ table.entries :=
  find_eq_some_iff table.distinct

theorem get_discard_eq_some_iff {matching : Key → Value → Bool} :
    (table.discard matching).get key = some val ↔
      table.get key = some val ∧ matching key val = false := by
  rw [get_eq_some_iff, get_eq_some_iff, discard, mem_filter, Bool.not_eq_true']

end Table
end Ladybone.Support
