import Mathlib.Data.List.Basic

/-!
# Fragments of a program

A compiler that emits code bottom up leaves the code of every part of its source as a
contiguous fragment of the program. `Placed program offset code` says where a fragment
stands; facts about a fragment are stated in the program that contains it, so that jumps
out of the fragment make sense.
-/

namespace Ladybone.Support.Layout

variable {Item : Type*}

def Placed (program : List Item) (offset : Nat) (code : List Item) : Prop :=
  ∀ (index : Nat) (item : Item), code[index]? = some item → program[offset + index]? = some item

theorem placed_self {prog : List Item} : Placed prog 0 prog := by
  intro index item found
  rwa [Nat.zero_add]

variable {prog first second : List Item} {off : Nat} {item : Item}

theorem Placed.left (placed : Placed prog off (first ++ second)) : Placed prog off first := by
  intro index item found
  apply placed
  have inside : index < first.length := (List.getElem?_eq_some_iff.mp found).1
  rwa [List.getElem?_append_left inside]

theorem Placed.right (placed : Placed prog off (first ++ second)) :
    Placed prog (off + first.length) second := by
  intro index item found
  rw [Nat.add_assoc]
  apply placed
  rwa [List.getElem?_append_right (Nat.le_add_right _ _), Nat.add_sub_cancel_left]

theorem Placed.head (placed : Placed prog off (item :: second)) : prog[off]? = some item :=
  placed 0 item rfl

theorem Placed.tail (placed : Placed prog off (item :: second)) : Placed prog (off + 1) second := by
  intro index found
  have shifted := placed (index + 1) found
  rwa [← Nat.add_assoc, Nat.add_right_comm] at shifted

theorem Placed.behind (placed : Placed prog off (item :: first ++ second)) :
    Placed prog (off + 1 + first.length) second := by
  have shifted := placed.right
  rwa [List.length_cons, Nat.add_comm first.length 1, ← Nat.add_assoc] at shifted

end Ladybone.Support.Layout
