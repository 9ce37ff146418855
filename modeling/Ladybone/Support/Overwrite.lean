import Mathlib.Data.List.Basic

/-!
# Writing a run of items into a list

`overwrite items start values` puts the values one after another from `start` on, as a
copy into a buffer of fixed size does. The length never changes, and the items outside
the run stay what they were.
-/

namespace Ladybone.Support.Overwrite

open List

variable {Item : Type*}

def overwrite : List Item → Nat → List Item → List Item
  | items, _, [] => items
  | items, start, value :: rest => overwrite (items.set start value) (start + 1) rest

def window (items : List Item) (start length : Nat) : List Item :=
  (items.drop start).take length

@[simp] theorem length_overwrite {items : List Item} {start : Nat} {vals : List Item} :
    (overwrite items start vals).length = items.length := by
  induction vals generalizing items start with
  | nil => rfl
  | cons _ _ ih => rw [overwrite, ih, length_set]

theorem getElem?_overwrite (items : List Item) (start : Nat) {vals : List Item}
    (inside : start + vals.length ≤ items.length) (idx : Nat) :
    (overwrite items start vals)[idx]? =
      if start ≤ idx ∧ idx < start + vals.length then vals[idx - start]?
      else items[idx]? := by
  induction vals generalizing items start with
  | nil =>
    have empty : ¬ (start ≤ idx ∧ idx < start + ([] : List Item).length) := by
      simp only [length_nil]
      omega
    rw [if_neg empty, overwrite]
  | cons value rest ih =>
    simp only [length_cons] at inside
    have shorter : start + 1 + rest.length ≤ (items.set start value).length := by
      rw [length_set]
      omega
    rw [overwrite, ih _ _ shorter]
    simp only [length_cons]
    by_cases later : start + 1 ≤ idx ∧ idx < start + 1 + rest.length
    · have here : start ≤ idx ∧ idx < start + (rest.length + 1) := by omega
      have shifted : idx - start = idx - (start + 1) + 1 := by omega
      rw [if_pos later, if_pos here, shifted, getElem?_cons_succ]
    · rw [if_neg later]
      by_cases first : idx = start
      · subst first
        have here : idx ≤ idx ∧ idx < idx + (rest.length + 1) := by omega
        have bound : idx < items.length := by omega
        rw [if_pos here, Nat.sub_self, getElem?_cons_zero, getElem?_set_self bound]
      · have outside : ¬ (start ≤ idx ∧ idx < start + (rest.length + 1)) := by omega
        rw [if_neg outside, getElem?_set_ne (Ne.symm first)]

end Ladybone.Support.Overwrite
