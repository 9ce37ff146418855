import Mathlib.Order.Bounds.Defs
import Mathlib.Data.List.Infix

/-!
# Prefixes of a pattern at the end of a text

What an automaton for a pattern remembers of the text it has read: which prefixes of the pattern
end it.
-/

namespace Ladybone.Support.Matching

open List

variable {α : Type} {pattern text rest : List α} {x : α} {k n : Nat}

/-- The first `k` elements of the pattern end the text. -/
def Ends (pattern text : List α) (k : Nat) : Prop :=
  k ≤ pattern.length ∧ pattern.take k <:+ text

theorem Ends.le_length (ends : Ends pattern text k) : k ≤ text.length := by
  have shorter := ends.2.length_le
  rwa [length_take_of_le ends.1] at shorter

theorem ends_zero : Ends pattern text 0 := ⟨Nat.zero_le _, nil_suffix⟩

theorem ends_length_iff : Ends pattern text pattern.length ↔ pattern <:+ text := by
  simp [Ends]

theorem ends_concat_iff :
    Ends pattern (text ++ [x]) (k + 1) ↔ Ends pattern text k ∧ pattern[k]? = some x := by
  by_cases inside : k < pattern.length
  · have le := Nat.le_of_lt inside
    rw [Ends, Ends, take_succ_eq_append_getElem inside, suffix_concat_iff]
    simp [inside, le, Nat.succ_le_of_lt inside, and_comm, -take_append_getElem]
  · rw [getElem?_eq_none (Nat.le_of_not_lt inside)]
    exact ⟨fun ends => absurd ends.1 inside, fun ends => by cases ends.2⟩

theorem Ends.trans (ends : Ends pattern text n) (shorter : Ends pattern (pattern.take n) k) :
    Ends pattern text k :=
  ⟨shorter.1, shorter.2.trans ends.2⟩

theorem Ends.within (ends : Ends pattern text n) (shorter : Ends pattern text k) (le : k ≤ n) :
    Ends pattern (pattern.take n) k := by
  refine ⟨shorter.1, suffix_of_suffix_length_le shorter.2 ends.2 ?_⟩
  rwa [length_take_of_le shorter.1, length_take_of_le ends.1]

/-- Of the text it is enough to remember a prefix of the pattern that is as long as any the next
element may extend. -/
theorem greatest_concat {m : Nat} (ends : Ends pattern text n)
    (longest : ∀ k, Ends pattern text k → pattern[k]? = some x → k ≤ n)
    (greatest : IsGreatest {k | Ends pattern (pattern.take n ++ [x]) k} m) :
    IsGreatest {k | Ends pattern (text ++ [x]) k} m := by
  refine ⟨?_, ?_⟩
  · cases m with
    | zero => exact ends_zero
    | succ m =>
      obtain ⟨shorter, isNext⟩ := ends_concat_iff.mp greatest.1
      exact ends_concat_iff.mpr ⟨ends.trans shorter, isNext⟩
  · rintro (- | k) isEnd
    · exact Nat.zero_le _
    · obtain ⟨shorter, isNext⟩ := ends_concat_iff.mp isEnd
      have within := ends.within shorter (longest k shorter isNext)
      exact greatest.2 (ends_concat_iff.mpr ⟨within, isNext⟩)

/-! ## First occurrences -/

def FirstAt (pattern text : List α) : Option Nat → Prop
  | none => ∀ k, ¬pattern <+: text.drop k
  | some offset => pattern <+: text.drop offset ∧ ∀ k < offset, ¬pattern <+: text.drop k

theorem first_at_concat (unseen : FirstAt pattern text none) (notEnd : ¬pattern <:+ text ++ [x]) :
    FirstAt pattern (text ++ [x]) none := by
  intro k occurs
  rcases Nat.lt_or_ge text.length k with behind | inside
  · rw [drop_eq_nil_of_le (by rwa [length_append])] at occurs
    exact unseen 0 (eq_nil_of_prefix_nil occurs ▸ nil_prefix)
  · rw [drop_append_of_le_length inside, prefix_concat_iff] at occurs
    rcases occurs with whole | within
    · refine notEnd ⟨text.take k, ?_⟩
      rw [whole, ← append_assoc, take_append_drop]
    · exact unseen k within

theorem first_at_suffix (unseen : FirstAt pattern text none)
    (isEnd : pattern <:+ text ++ [x]) :
    FirstAt pattern (text ++ x :: rest) (some (text.length + 1 - pattern.length)) := by
  obtain ⟨front, split⟩ := isEnd
  have length : front.length + pattern.length = text.length + 1 := by
    simpa using congrArg List.length split
  have whole : text ++ x :: rest = front ++ (pattern ++ rest) := by
    rw [← append_assoc, split, append_assoc]
    rfl
  have offset : text.length + 1 - pattern.length = front.length := by omega
  refine ⟨?_, fun k before occurs => unseen k ?_⟩
  · rw [offset, whole, drop_left]
    exact prefix_append _ _
  · rw [drop_append_of_le_length (by omega)] at occurs
    refine prefix_of_prefix_length_le occurs (prefix_append _ _) ?_
    rw [length_drop]
    omega

end Ladybone.Support.Matching
