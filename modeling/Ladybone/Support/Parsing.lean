import Ladybone.Support.Checks

/-!
# Parsers that append to a log

A parser is a state-passing computation that may fail. `Emits inv log parser post`
says what a successful run does: it keeps `inv` and appends to the log of the state
some list that `post` relates to the result. The rules follow the constructors of a
parser, so a parser's own lemma is read off its text.
-/

namespace Ladybone.Support.Parsing

variable {State Failure Item : Type} {Result Value : Type}

def repeated (parser : StateT State (Except Failure) Result) :
    Nat → StateT State (Except Failure) (List Result)
  | 0 => pure []
  | count + 1 => do
      let first ← parser
      let rest ← repeated parser count
      return first :: rest

def Emits (inv : State → Prop) (log : State → List Item)
    (parser : StateT State (Except Failure) Result) (post : Result → List Item → Prop) : Prop :=
  ∀ start result finish, inv start → parser start = .ok (result, finish) →
    inv finish ∧ ∃ added, log finish = log start ++ added ∧ post result added

/-- A parser that keeps the invariant and logs nothing. -/
def Silent (inv : State → Prop) (log : State → List Item)
    (parser : StateT State (Except Failure) Result) : Prop :=
  Emits inv log parser fun _ added => added = []

variable {inv : State → Prop} {log : State → List Item}
  {parser : StateT State (Except Failure) Result}
  {next : Result → StateT State (Except Failure) Value} {post : Value → List Item → Prop}

theorem bind_ok {start finish : State} {val : Value}
    (ran : (parser >>= next) start = .ok (val, finish)) :
    ∃ res between, parser start = .ok (res, between) ∧ next res between = .ok (val, finish) := by
  obtain ⟨⟨res, between⟩, first, second⟩ := Checks.bind_eq_ok.mp ran
  exact ⟨res, between, first, second⟩

theorem emits_pure {post : Result → List Item → Prop} (res : Result) (holds : post res []) :
    Emits inv log (pure res : StateT State (Except Failure) Result) post := by
  intro start returned finish good ran
  have same : (res, start) = (returned, finish) := Except.ok.inj ran
  rw [← (Prod.mk.inj same).1, ← (Prod.mk.inj same).2]
  exact ⟨good, [], (List.append_nil _).symm, holds⟩

theorem emits_throw {post : Result → List Item → Prop} {failure : Failure} :
    Emits inv log (throw failure : StateT State (Except Failure) Result) post := by
  intro start res finish _ ran
  cases ran

theorem emits_bind {middle : Result → List Item → Prop} (first : Emits inv log parser middle)
    (second : ∀ res logged, middle res logged →
      Emits inv log (next res) fun val added => post val (logged ++ added)) :
    Emits inv log (parser >>= next) post := by
  intro start val finish good ran
  rcases bind_ok ran with ⟨res, between, ranFirst, ranSecond⟩
  rcases first start res between good ranFirst with ⟨kept, logged, logEq, held⟩
  rcases second res logged held between val finish kept ranSecond with
    ⟨keptAgain, added, logEqAgain, heldAgain⟩
  refine ⟨keptAgain, logged ++ added, ?_, heldAgain⟩
  rw [logEqAgain, logEq, List.append_assoc]

theorem emits_after (first : Silent inv log parser)
    (second : ∀ res, Emits inv log (next res) post) :
    Emits inv log (parser >>= next) post := by
  apply emits_bind first
  intro res logged none
  rw [none]
  exact second res

theorem emits_map {f : Result → Value}
    (emits : Emits inv log parser fun res added => post (f res) added) :
    Emits inv log (f <$> parser) post := by
  have asBind : f <$> parser = parser >>= fun res => pure (f res) :=
    (bind_pure_comp f parser).symm
  rw [asBind]
  apply emits_bind emits
  intro res logged held
  apply emits_pure
  rwa [List.append_nil]

theorem emits_repeated {items : Result → List Item}
    (emits : Emits inv log parser fun res added => added = items res) (count : Nat) :
    Emits inv log (repeated parser count) fun results added =>
      added = results.flatMap items := by
  induction count with
  | zero => exact emits_pure [] rfl
  | succ _ ih =>
    apply emits_bind emits
    intro first fromFirst firstEq
    apply emits_bind ih
    intro rest fromRest restEq
    apply emits_pure
    rw [firstEq, restEq, List.append_nil, List.flatMap_cons]

end Ladybone.Support.Parsing
