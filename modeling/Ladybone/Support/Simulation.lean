import Mathlib.Logic.Relation
import Mathlib.Data.List.Infix

/-!
# Machines that behave alike

A machine takes silent or observed steps until it halts with a result or is stuck. Two
machines are equivalent from two states when they halt alike, with the same events and related
results, and emit the same events also when they do not halt. A simulation in which one machine
may take several steps for one of the other, or wait for finitely many silent ones, gives
equivalence.
-/

namespace Ladybone.Support.Simulation

open List

inductive Next (State Event Result : Type) where
  | step (events : List Event) (state : State)
  | halt (events : List Event) (result : Result)
  | stuck

inductive Status (State Result : Type) where
  | running (state : State)
  | halted (result : Result)
  | stuck

variable {State Event Result : Type}

def run (step : State → Next State Event Result) : Nat → State → List Event × Status State Result
  | 0, state => ([], .running state)
  | count + 1, state =>
    match step state with
    | .step events next =>
      let (later, status) := run step count next
      (events ++ later, status)
    | .halt events result => (events, .halted result)
    | .stuck => ([], .stuck)

variable {step : State → Next State Event Result} {count more : Nat} {state next : State}
  {events later : List Event} {res : Result} {status : Status State Result}

theorem run_succ_step (steps : step state = .step events next) :
    run step (count + 1) state = (events ++ (run step count next).1, (run step count next).2) := by
  rw [run, steps]

theorem run_one (steps : step state = .step events next) :
    run step 1 state = (events, .running next) := by
  rw [run_succ_step steps, run, append_nil]

theorem run_halt (halted : step state = .halt events res) :
    run step (count + 1) state = (events, .halted res) := by
  rw [run, halted]

theorem run_stuck (halted : step state = .stuck) : run step (count + 1) state = ([], .stuck) := by
  rw [run, halted]

theorem run_add (first : run step count state = (events, .running next)) (more : Nat) :
    run step (count + more) state = (events ++ (run step more next).1, (run step more next).2) := by
  induction count generalizing state events with
  | zero =>
    cases first
    rw [Nat.zero_add, nil_append]
  | succ count ih =>
    rw [Nat.add_right_comm]
    cases steps : step state with
    | step _ middle =>
      rcases rest : run step count middle with ⟨trace, status⟩
      rw [run_succ_step steps, rest] at first
      cases first
      rw [run_succ_step steps, ih rest, append_assoc]
    | halt =>
      rw [run_halt steps] at first
      cases first
    | stuck =>
      rw [run_stuck steps] at first
      cases first

theorem run_add_of_stopped (first : run step count state = (events, status))
    (stopped : ∀ other, status ≠ .running other) (more : Nat) :
    run step (count + more) state = (events, status) := by
  induction count generalizing state events with
  | zero =>
    cases first
    exact absurd rfl (stopped state)
  | succ count ih =>
    rw [Nat.add_right_comm]
    cases steps : step state with
    | step _ middle =>
      rcases rest : run step count middle with ⟨trace, other⟩
      rw [run_succ_step steps, rest] at first
      cases first
      rw [run_succ_step steps, ih rest]
    | halt =>
      rw [run_halt steps] at first ⊢
      exact first
    | stuck =>
      rw [run_stuck steps] at first ⊢
      exact first

theorem split_stopped (stopped : run step count state = (later, status))
    (final : ∀ other, status ≠ .running other)
    (going : run step more state = (events, .running next)) :
    ∃ left rest, count = more + left ∧ run step left next = (rest, status) ∧
      later = events ++ rest := by
  have longer : more ≤ count := by
    by_contra shorter
    have same := run_add_of_stopped stopped final (more - count)
    rw [Nat.add_sub_cancel' (by omega), going] at same
    exact final next (congrArg Prod.snd same).symm
  obtain ⟨left, rfl⟩ := Nat.exists_eq_add_of_le longer
  have whole := run_add going left
  rw [stopped] at whole
  exact ⟨left, (run step left next).1, rfl,
    Prod.ext rfl (congrArg Prod.snd whole).symm, congrArg Prod.fst whole⟩

def Halts (step : State → Next State Event Result) (state : State) (events : List Event)
    (result : Result) : Prop :=
  ∃ count, run step count state = (events, .halted result)

/-- The machine gets to emit these events first. -/
def Emits (step : State → Next State Event Result) (state : State) (events : List Event) : Prop :=
  ∃ count, events <+: (run step count state).1

/-! ## Equivalence -/

section
variable {State₁ State₂ State₃ Result₁ Result₂ Result₃ : Type}

structure Equivalent (related : Result₁ → Result₂ → Prop)
    (step₁ : State₁ → Next State₁ Event Result₁) (state₁ : State₁)
    (step₂ : State₂ → Next State₂ Event Result₂) (state₂ : State₂) : Prop where
  forth : ∀ events result, Halts step₁ state₁ events result →
    ∃ other, related result other ∧ Halts step₂ state₂ events other
  back : ∀ events other, Halts step₂ state₂ events other →
    ∃ result, related result other ∧ Halts step₁ state₁ events result
  emits : ∀ events, Emits step₁ state₁ events ↔ Emits step₂ state₂ events

variable {step₁ : State₁ → Next State₁ Event Result₁} {state₁ : State₁}
  {step₂ : State₂ → Next State₂ Event Result₂} {state₂ : State₂}
  {step₃ : State₃ → Next State₃ Event Result₃} {state₃ : State₃}
  {related : Result₁ → Result₂ → Prop}

theorem Equivalent.trans {related' : Result₂ → Result₃ → Prop}
    (first : Equivalent related step₁ state₁ step₂ state₂)
    (second : Equivalent related' step₂ state₂ step₃ state₃) :
    Equivalent (Relation.Comp related related') step₁ state₁ step₃ state₃ where
  forth := by
    intro events res halts
    obtain ⟨middle, left, halts⟩ := first.forth events res halts
    obtain ⟨other, right, halts⟩ := second.forth events middle halts
    exact ⟨other, ⟨middle, left, right⟩, halts⟩
  back := by
    intro events other halts
    obtain ⟨middle, right, halts⟩ := second.back events other halts
    obtain ⟨res, left, halts⟩ := first.back events middle halts
    exact ⟨res, ⟨middle, left, right⟩, halts⟩
  emits := fun events => (first.emits events).trans (second.emits events)

theorem Equivalent.mono {weaker : Result₁ → Result₂ → Prop}
    (equivalent : Equivalent related step₁ state₁ step₂ state₂)
    (implied : ∀ res other, related res other → weaker res other) :
    Equivalent weaker step₁ state₁ step₂ state₂ where
  forth := by
    intro events res halts
    obtain ⟨other, holds, halts⟩ := equivalent.forth events res halts
    exact ⟨other, implied res other holds, halts⟩
  back := by
    intro events other halts
    obtain ⟨res, holds, halts⟩ := equivalent.back events other halts
    exact ⟨res, implied res other holds, halts⟩
  emits := equivalent.emits

/-! ## Simulation -/

/-- What related states can do: both go on with the same events to related states, the first
waits for a silent step that lowers the rank, or both stop alike. -/
inductive Progress (step₁ : State₁ → Next State₁ Event Result₁)
    (step₂ : State₂ → Next State₂ Event Result₂) (match_ : State₁ → State₂ → Prop)
    (related : Result₁ → Result₂ → Prop) (rank : State₁ → Nat) (state₁ : State₁)
    (state₂ : State₂) : Prop
  | both {count more : Nat} {events : List Event} {next₁ : State₁} {next₂ : State₂}
      (first : run step₁ (count + 1) state₁ = (events, .running next₁))
      (second : run step₂ (more + 1) state₂ = (events, .running next₂))
      (matched : match_ next₁ next₂)
  | silent {next₁ : State₁} (first : run step₁ 1 state₁ = ([], .running next₁))
      (matched : match_ next₁ state₂) (lower : rank next₁ < rank state₁)
  | halted {count more : Nat} {events : List Event} {result : Result₁} {other : Result₂}
      (first : run step₁ count state₁ = (events, .halted result))
      (second : run step₂ more state₂ = (events, .halted other)) (holds : related result other)
  | stuck {count more : Nat} {events : List Event}
      (first : run step₁ count state₁ = (events, .stuck))
      (second : run step₂ more state₂ = (events, .stuck))

variable {match_ : State₁ → State₂ → Prop} {rank : State₁ → Nat}

inductive Alike (match_ : State₁ → State₂ → Prop) (related : Result₁ → Result₂ → Prop) :
    Next State₁ Event Result₁ → Next State₂ Event Result₂ → Prop
  | step {events : List Event} {next₁ : State₁} {next₂ : State₂} (matched : match_ next₁ next₂) :
      Alike match_ related (.step events next₁) (.step events next₂)
  | halt {events : List Event} {result : Result₁} {other : Result₂}
      (holds : related result other) :
      Alike match_ related (.halt events result) (.halt events other)
  | stuck : Alike match_ related .stuck .stuck

theorem Alike.progress (alike : Alike match_ related (step₁ state₁) (step₂ state₂)) :
    Progress step₁ step₂ match_ related rank state₁ state₂ := by
  cases first : step₁ state₁ <;> cases second : step₂ state₂ <;> rw [first, second] at alike <;>
    cases alike
  case step.step.step matched => exact .both (run_one first) (run_one second) matched
  case halt.halt.halt holds =>
    have left : run step₁ 1 state₁ = _ := run_halt first
    have right : run step₂ 1 state₂ = _ := run_halt second
    exact .halted left right holds
  case stuck.stuck.stuck =>
    have left : run step₁ 1 state₁ = _ := run_stuck first
    have right : run step₂ 1 state₂ = _ := run_stuck second
    exact .stuck left right

variable {events later : List Event} {res : Result} {count : Nat}

theorem halts_of_run_add (first : run step count state = (events, .running next))
    (halts : Halts step next later res) : Halts step state (events ++ later) res := by
  obtain ⟨more, halted⟩ := halts
  exact ⟨count + more, by rw [run_add first, halted]⟩

theorem emits_of_run_add (first : run step count state = (events, .running next))
    (emits : Emits step next later) : Emits step state (events ++ later) := by
  obtain ⟨more, emitted⟩ := emits
  refine ⟨count + more, ?_⟩
  rw [run_add first]
  exact prefix_append_right_inj events |>.mpr emitted

theorem stopped_unique {other : Status State Result}
    (first : run step count state = (events, status)) (final : ∀ last, status ≠ .running last)
    (second : run step more state = (later, other)) (otherFinal : ∀ last, other ≠ .running last) :
    (events, status) = (later, other) := by
  have left := run_add_of_stopped first final more
  have right := run_add_of_stopped second otherFinal count
  rwa [Nat.add_comm, left] at right

theorem emitted_prefix_of_stopped (stopped : run step count state = (later, status))
    (final : ∀ other, status ≠ .running other) (more : Nat) :
    (run step more state).1 <+: later := by
  rcases going : run step more state with ⟨trace, reached⟩
  by_cases runs : ∃ next, reached = .running next
  · obtain ⟨next, rfl⟩ := runs
    obtain ⟨left, rest, -, -, same⟩ := split_stopped stopped final going
    rw [same]
    exact prefix_append _ _
  · cases stopped_unique stopped final going fun next same => runs ⟨next, same⟩
    exact prefix_refl _

theorem emits_split {target : List Event} (going : run step count state = (events, .running next))
    (emitted : target <+: (run step more state).1) :
    target <+: events ∨ ∃ left rest, more = count + left ∧ target = events ++ rest ∧
      rest <+: (run step left next).1 := by
  by_cases shorter : more ≤ count
  · left
    obtain ⟨left, rfl⟩ := Nat.exists_eq_add_of_le shorter
    rcases ran : run step more state with ⟨trace, reached⟩
    rw [ran] at emitted
    by_cases runs : ∃ middle, reached = .running middle
    · obtain ⟨middle, rfl⟩ := runs
      rw [run_add ran, Prod.mk.injEq] at going
      rw [← going.1]
      exact emitted.trans (prefix_append _ _)
    · have same := run_add_of_stopped ran (fun middle equal => runs ⟨middle, equal⟩) left
      rw [going] at same
      cases same
      exact emitted
  · obtain ⟨left, rfl⟩ := Nat.exists_eq_add_of_le (by omega : count ≤ more)
    rw [run_add going] at emitted
    rcases prefix_or_prefix_of_prefix emitted (prefix_append events _) with
      early | ⟨rest, rfl⟩
    · exact .inl early
    · refine .inr ⟨left, rest, rfl, rfl, ?_⟩
      exact (prefix_append_right_inj events).mp emitted

/-- Progress from every pair of matched states. -/
def Simulates (step₁ : State₁ → Next State₁ Event Result₁)
    (step₂ : State₂ → Next State₂ Event Result₂) (match_ : State₁ → State₂ → Prop)
    (related : Result₁ → Result₂ → Prop) (rank : State₁ → Nat) : Prop :=
  ∀ state₁ state₂, match_ state₁ state₂ → Progress step₁ step₂ match_ related rank state₁ state₂

section
variable (simulates : Simulates step₁ step₂ match_ related rank) (matched : match_ state₁ state₂)

include simulates matched

theorem Simulates.forth {res : Result₁} (halted : run step₁ count state₁ = (events, .halted res)) :
    ∃ other, related res other ∧ Halts step₂ state₂ events other := by
  -- every case but the last two spends a step of the first machine
  induction count using Nat.strongRecOn generalizing state₁ state₂ events with
  | ind _ ih =>
    cases simulates state₁ state₂ matched with
    | both first second later =>
      obtain ⟨left, rest, rfl, remaining, rfl⟩ := split_stopped halted (by simp) first
      obtain ⟨other, holds, halts⟩ := ih left (by omega) later remaining
      exact ⟨other, holds, halts_of_run_add second halts⟩
    | silent first later =>
      obtain ⟨left, rest, rfl, remaining, rfl⟩ := split_stopped halted (by simp) first
      exact ih left (by omega) later remaining
    | halted first second holds =>
      cases stopped_unique first (by simp) halted (by simp)
      exact ⟨_, holds, _, second⟩
    | stuck first => cases stopped_unique first (by simp) halted (by simp)

theorem Simulates.back {other : Result₂} (halted : run step₂ count state₂ = (events, .halted other))
    : ∃ res, related res other ∧ Halts step₁ state₁ events res := by
  induction count using Nat.strongRecOn generalizing state₁ state₂ events with
  | ind _ ih =>
    -- silent steps do not move the second machine but lower the rank
    induction level : rank state₁ using Nat.strongRecOn generalizing state₁ with
    | ind level ihRank =>
      cases simulates state₁ state₂ matched with
      | both first second later =>
        obtain ⟨left, rest, rfl, remaining, rfl⟩ := split_stopped halted (by simp) second
        obtain ⟨res, holds, halts⟩ := ih left (by omega) later remaining
        exact ⟨res, holds, halts_of_run_add first halts⟩
      | silent first later lower =>
        obtain ⟨res, holds, halts⟩ := ihRank _ (level ▸ lower) later rfl
        exact ⟨res, holds, halts_of_run_add first halts⟩
      | halted first second holds =>
        cases stopped_unique second (by simp) halted (by simp)
        exact ⟨_, holds, _, first⟩
      | stuck _ second => cases stopped_unique second (by simp) halted (by simp)

theorem Simulates.emits_forth (emitted : events <+: (run step₁ count state₁).1) :
    Emits step₂ state₂ events := by
  induction count using Nat.strongRecOn generalizing state₁ state₂ events with
  | ind count ih =>
    cases simulates state₁ state₂ matched with
    | both first second later =>
      rcases emits_split first emitted with early | ⟨left, rest, rfl, rfl, tail⟩
      · exact ⟨_, by rw [second]; exact early⟩
      · exact emits_of_run_add second (ih left (by omega) later tail)
    | silent first later =>
      rcases emits_split first emitted with early | ⟨left, rest, rfl, rfl, tail⟩
      · exact ⟨0, early⟩
      · exact ih left (by omega) later tail
    | halted first second | stuck first second =>
      exact ⟨_, by
        rw [second]
        exact emitted.trans (emitted_prefix_of_stopped first (by simp) count)⟩

theorem Simulates.emits_back (emitted : events <+: (run step₂ count state₂).1) :
    Emits step₁ state₁ events := by
  induction count using Nat.strongRecOn generalizing state₁ state₂ events with
  | ind count ih =>
    induction level : rank state₁ using Nat.strongRecOn generalizing state₁ with
    | ind level ihRank =>
      cases simulates state₁ state₂ matched with
      | both first second later =>
        rcases emits_split second emitted with early | ⟨left, rest, rfl, rfl, tail⟩
        · exact ⟨_, by rw [first]; exact early⟩
        · exact emits_of_run_add first (ih left (by omega) later tail)
      | silent first later lower =>
        exact emits_of_run_add first (ihRank _ (level ▸ lower) later rfl)
      | halted first second | stuck first second =>
        exact ⟨_, by
          rw [first]
          exact emitted.trans (emitted_prefix_of_stopped second (by simp) count)⟩

theorem Simulates.equivalent :
    Equivalent related step₁ state₁ step₂ state₂ where
  forth := fun _ _ ⟨_, halted⟩ => simulates.forth matched halted
  back := fun _ _ ⟨_, halted⟩ => simulates.back matched halted
  emits := fun _ => ⟨fun ⟨_, emitted⟩ => simulates.emits_forth matched emitted,
    fun ⟨_, emitted⟩ => simulates.emits_back matched emitted⟩

end
end
end Ladybone.Support.Simulation
