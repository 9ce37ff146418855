import Mathlib.Data.List.Basic

/-!
# Sequences of checks

Validators run checks one after the other and stop at the first failure. What is known after
a run that did not fail is that every check passed.
-/

namespace Ladybone.Support.Checks

variable {ε α β : Type} {problem : ε}

theorem bind_eq_ok {first : Except ε α} {next : α → Except ε β} {val : β} :
    (first >>= next) = .ok val ↔ ∃ middle, first = .ok middle ∧ next middle = .ok val := by
  cases first with
  | error =>
    constructor
    · intro failed
      cases failed
    · rintro ⟨_, failed, _⟩
      cases failed
  | ok middle =>
    constructor
    · intro done
      exact ⟨middle, rfl, done⟩
    · rintro ⟨_, same, done⟩
      cases same
      exact done

theorem check_bind_eq_ok {check : Except ε Unit} {next : Except ε β} {val : β} :
    (check >>= fun _ => next) = .ok val ↔ check = .ok () ∧ next = .ok val := by
  rw [bind_eq_ok]
  constructor
  · rintro ⟨_, passed, done⟩
    exact ⟨passed, done⟩
  · rintro ⟨passed, done⟩
    exact ⟨(), passed, done⟩

def ensure (condition : Bool) (problem : ε) : Except ε Unit :=
  if condition then .ok () else .error problem

theorem ensure_eq_ok {cond : Bool} : ensure cond problem = .ok () ↔ cond = true := by
  cases cond with
  | true | false => simp [ensure]

def present (problem : ε) : Option α → Except ε α
  | some value => .ok value
  | none => .error problem

theorem present_eq_ok {found : Option α} {val : α} :
    present problem found = .ok val ↔ found = some val := by
  cases found with
  | none | some => simp [present]

def each (check : α → Except ε Unit) : List α → Except ε Unit
  | [] => .ok ()
  | first :: rest => do
      check first
      each check rest

theorem each_eq_ok {check : α → Except ε Unit} {items : List α} :
    each check items = .ok () ↔ ∀ item ∈ items, check item = .ok () := by
  induction items with
  | nil => simp [each]
  | cons _ _ ih => simp [each, check_bind_eq_ok, ih]

theorem map_error_eq_ok {γ : Type} {translate : ε → γ} {result : Except ε α} {val : α} :
    result.mapError translate = .ok val ↔ result = .ok val := by
  cases result with
  | error | ok => simp [Except.mapError]
end Ladybone.Support.Checks
