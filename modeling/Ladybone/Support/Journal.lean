import Mathlib.Data.Option.Basic

/-!
# Undo journals

A journal is a list of entries, oldest first, and a partial way to undo one
entry. Rolling back undoes the newest entry first. `Undone before entries after`
is the inverse relation a journaled operation has to establish; it composes
along a run.
-/

namespace Ladybone.Support.Journal

variable {State Entry : Type*} (undo : Entry → State → Option State)

def rollback : List Entry → State → Option State
  | [], state => some state
  | entry :: later, state => (rollback later state).bind (undo entry)

theorem rollback_append (past later : List Entry) (state : State) :
    rollback undo (past ++ later) state =
      (rollback undo later state).bind (rollback undo past) := by
  induction past with
  | nil =>
    simp only [List.nil_append]
    cases rollback undo later state <;> rfl
  | cons _ _ ih =>
    simp only [List.cons_append, rollback, ih]
    cases rollback undo later state <;> rfl

def Undone (before : State) (entries : List Entry) (after : State) : Prop :=
  rollback undo entries after = some before

theorem undone_nil {state : State} : Undone undo state [] state := rfl

theorem undone_append {before between after : State} {past later : List Entry}
    (first : Undone undo before past between) (second : Undone undo between later after) :
    Undone undo before (past ++ later) after := by
  unfold Undone at first second ⊢
  rwa [rollback_append, second]

end Ladybone.Support.Journal
