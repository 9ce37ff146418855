import Mathlib.Data.List.Basic

/-!
# Bracketed sequences

Code in which some entries open a construct and others close the innermost open one. The
constructs that enclose a position are read off the entries before it.
-/

namespace Ladybone.Support.Bracketing

open List

inductive Mark where
  | opens
  | closes
  | plain
deriving DecidableEq

def advance (position : Nat) : Mark → List Nat → List Nat
  | .opens, opened => position :: opened
  | .closes, opened => opened.tail
  | .plain, opened => opened

def scan : List Mark → Nat → List Nat → List Nat
  | [], _, opened => opened
  | mark :: rest, position, opened => scan rest (position + 1) (advance position mark opened)

/-- The positions of the constructs open before a position, innermost first. -/
def enclosing (marks : List Mark) (position : Nat) : List Nat := scan (marks.take position) 0 []

theorem scan_append (marks later : List Mark) (pos : Nat) (opened : List Nat) :
    scan (marks ++ later) pos opened = scan later (pos + marks.length) (scan marks pos opened) := by
  induction marks generalizing pos opened with
  | nil => rfl
  | cons _ _ ih =>
    rw [cons_append, scan, scan, ih, length_cons, Nat.add_right_comm, Nat.add_assoc]

@[simp]
theorem enclosing_zero (marks : List Mark) : enclosing marks 0 = [] := rfl

variable {marks : List Mark} {pos opener : Nat} {around : List Nat}

theorem enclosing_succ {mark : Mark} (here : marks[pos]? = some mark) :
    enclosing marks (pos + 1) = advance pos mark (enclosing marks pos) := by
  obtain ⟨inside, rfl⟩ := List.getElem?_eq_some_iff.mp here
  have length : (marks.take pos).length = pos :=
    length_take_of_le (Nat.le_of_lt inside)
  rw [enclosing, take_succ_eq_append_getElem inside, scan_append, length, Nat.zero_add]
  rfl

/-- Around each enclosing construct stand those that enclose its opening. -/
theorem enclosing_eq_append {inner : List Nat} (inside : pos ≤ marks.length)
    (opened : enclosing marks pos = inner ++ opener :: around) :
    opener < pos ∧ marks[opener]? = some .opens ∧ around = enclosing marks opener := by
  induction pos generalizing inner with
  | zero => simp at opened
  | succ pos ih =>
    have here := getElem?_eq_getElem (Nat.lt_of_succ_le inside)
    have earlier : ∀ {inner : List Nat}, enclosing marks pos = inner ++ opener :: around →
        opener < pos + 1 ∧ marks[opener]? = some .opens ∧
          around = enclosing marks opener := fun opened =>
      (ih (Nat.le_of_succ_le inside) opened).imp_left Nat.lt_succ_of_lt
    rw [enclosing_succ here] at opened
    cases mark : marks[pos] with
    | opens =>
      rw [mark] at opened here
      cases inner with
      | nil =>
        obtain ⟨rfl, rfl⟩ := List.cons.inj opened
        exact ⟨Nat.lt_succ_self _, here, rfl⟩
      | cons => exact earlier (List.cons.inj opened).2
    | closes =>
      rw [mark] at opened
      cases before : enclosing marks pos with
      | nil =>
        rw [before] at opened
        simp [advance] at opened
      | cons first =>
        rw [before] at opened
        have whole : enclosing marks pos = (first :: inner) ++ opener :: around := by
          rw [before]
          exact congrArg (first :: ·) opened
        exact earlier whole
    | plain =>
      rw [mark] at opened
      exact earlier opened

theorem enclosing_eq_cons (inside : pos ≤ marks.length)
    (opened : enclosing marks pos = opener :: around) :
    opener < pos ∧ marks[opener]? = some .opens ∧ around = enclosing marks opener :=
  enclosing_eq_append inside (opened.trans (nil_append _).symm)

def Closes (marks : List Mark) (opener finish : Nat) : Prop :=
  marks[finish]? = some .closes ∧ enclosing marks finish = opener :: enclosing marks opener

end Ladybone.Support.Bracketing
