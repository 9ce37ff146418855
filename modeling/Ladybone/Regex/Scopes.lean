import Ladybone.Regex.Effects
import Ladybone.Support.Runs

/-!
# Modifier scopes

The modifiers that hold at an instruction are read off the program text: the base flags
changed by the `PushModifiers` brackets around the instruction. The machine instead keeps
a current value and a stack of saved ones, which backtracking can shorten but not grow
again. `KeepsScope` is the condition on a step under which the two agree in every state
of a run.
-/

namespace Ladybone.Regex.Scopes

open Regex.Syntax Regex.Compile Regex.Machine Regex.Nesting Regex.Effects Support.Runs List

def isPush (program : List Instruction) (place : Nat) : Bool :=
  match program[place]? with
  | some (.pushModifiers _ _ _) => true
  | _ => false

def isLook (program : List Instruction) (place : Nat) : Bool :=
  match program[place]? with
  | some (.lookStart _ _ _) => true
  | _ => false

/-- The modifier groups an instruction lies in, innermost first. -/
def modifierGroups (program : List Instruction) (pc : Nat) : List Nat :=
  (enclosing program pc).filter (isPush program)

def lookarounds (program : List Instruction) (pc : Nat) : List Nat :=
  (enclosing program pc).filter (isLook program)

def modifiersWithin (program : Program) : List Nat → ActiveModifiers
  | [] => baseModifiers program
  | group :: outer =>
    match program.instructions[group]? with
    | some (.pushModifiers ignoreCase multiline dotAll) =>
      applyModifiers (modifiersWithin program outer) ignoreCase multiline dotAll
    | _ => modifiersWithin program outer

/-- The flags in effect at an instruction by its place in the pattern. -/
def lexicalModifiers (program : Program) (pc : Nat) : ActiveModifiers :=
  modifiersWithin program (modifierGroups program.instructions pc)

/-- What the modifier stack holds inside a list of groups. -/
def savedModifiers (program : Program) : List Nat → List ActiveModifiers
  | [] => []
  | _ :: outer => modifiersWithin program outer :: savedModifiers program outer

theorem saved_modifiers_length {prog : Program} {groups : List Nat} :
    (savedModifiers prog groups).length = groups.length := by
  induction groups with
  | nil => rfl
  | cons _ _ ih => simp [savedModifiers, ih]

theorem truncate_saved_modifiers {prog : Program} {outer groups : List Nat}
    (suffix : outer <:+ groups) :
    truncate (savedModifiers prog groups) outer.length = savedModifiers prog outer := by
  obtain ⟨inner, rfl⟩ := suffix
  simp only [truncate, saved_modifiers_length, length_append, Nat.add_sub_cancel]
  induction inner with
  | nil => rfl
  | cons _ _ ih => exact ih

def point (vm : Vm) : Nat := vm.failing.getD vm.pc

structure SavedInScope (program : Program) (saved : SavedState) : Prop where
  modifiers : saved.modifiers = lexicalModifiers program saved.pc
  depth : saved.modifierStackLength = (modifierGroups program.instructions saved.pc).length
  resumes : enclosing program.instructions saved.resumePc = enclosing program.instructions saved.pc

/-- The open frames are those of the lookarounds `looks`, and the choice points above a
frame's floor lie directly in its lookaround. -/
def Framed (program : List Instruction) : List LookFrame → List Nat → Nat → List SavedState → Prop
  | [], looks, _, stack => looks = [] ∧ ∀ saved ∈ stack, lookarounds program saved.pc = []
  | frame :: frames, looks, floor, stack =>
    ∃ (upper lower : List SavedState) (opened : Nat) (outer : List Nat) (forward : Bool),
      stack = upper ++ lower ∧ lower.length = floor ∧ frame.backtrackLength = floor ∧
        looks = opened :: outer ∧
        program[opened]? = some (.lookStart frame.positive forward frame.finish) ∧
        lookarounds program opened = outer ∧
        (∀ saved ∈ upper, lookarounds program saved.pc = looks) ∧
        Framed program frames outer frame.btFloor lower

structure InScope (program : Program) (vm : Vm) : Prop where
  current : vm.modifiers = lexicalModifiers program (point vm)
  stacked : vm.modifierStack =
    savedModifiers program (modifierGroups program.instructions (point vm))
  saved : ∀ saved ∈ vm.backtrackStack, SavedInScope program saved
  framed : ∃ looks, Framed program.instructions vm.frames looks vm.btFloor vm.backtrackStack ∧
    (vm.failing = none → lookarounds program.instructions vm.pc = looks)

/-- The condition on a step: a choice point is resumed only from inside every modifier group
it lies in, and the body of a negative lookaround fails outside the groups opened in it. -/
def KeepsScope (program : Program) (vm : Vm) : Prop :=
  ∀ failed, vm.failing = some failed →
    if vm.backtrackStack.length ≤ vm.btFloor then
      ∀ frame ∈ vm.frames.head?, frame.positive = false →
        modifierGroups program.instructions failed =
          modifierGroups program.instructions frame.finish
    else
      ∀ saved ∈ vm.backtrackStack.head?,
        modifierGroups program.instructions saved.pc <:+ modifierGroups program.instructions failed

instance (program : Program) (vm : Vm) : Decidable (KeepsScope program vm) :=
  match failing : vm.failing with
  | none => isTrue fun failed given => by simp [failing] at given
  | some failed =>
    decidable_of_iff
      (if vm.backtrackStack.length ≤ vm.btFloor then
        ∀ frame ∈ vm.frames.head?, frame.positive = false →
          modifierGroups program.instructions failed =
            modifierGroups program.instructions frame.finish
      else
        ∀ saved ∈ vm.backtrackStack.head?,
          modifierGroups program.instructions saved.pc <:+
            modifierGroups program.instructions failed)
      ⟨fun holds other given => by
        rw [failing] at given
        cases given
        exact holds,
      fun keeps => keeps failed failing⟩

section
variable {prog : Program} {vm next : Vm}
  {code : List Instruction} {left right floor finish failed : Nat} {frames : List LookFrame}
  {looks : List Nat} {stack : List SavedState} {saved : SavedState} {positive forward : Bool}
  {host : Platform} {input : Input}

theorem groups_of_place (same : enclosing code left = enclosing code right) :
    modifierGroups code left = modifierGroups code right := by
  simp [modifierGroups, same]

theorem looks_of_place (same : enclosing code left = enclosing code right) :
    lookarounds code left = lookarounds code right := by
  simp [lookarounds, same]

theorem framed_push (framed : Framed code frames looks floor stack)
    (place : lookarounds code saved.pc = looks) :
    Framed code frames looks floor (saved :: stack) := by
  cases frames with
  | nil =>
    obtain ⟨rfl, all⟩ := framed
    exact ⟨rfl, forall_mem_cons.mpr ⟨place, all⟩⟩
  | cons =>
    obtain ⟨upper, lower, opened, outer, forward, rfl, long, len, rfl, found, outside, all,
      rest⟩ := framed
    exact ⟨saved :: upper, lower, opened, outer, forward, rfl, long, len, rfl, found, outside,
      forall_mem_cons.mpr ⟨place, all⟩, rest⟩

theorem framed_pop (framed : Framed code frames looks floor (saved :: stack))
    (above : floor ≤ stack.length) :
    lookarounds code saved.pc = looks ∧ Framed code frames looks floor stack := by
  cases frames with
  | nil =>
    obtain ⟨rfl, all⟩ := framed
    exact ⟨all saved mem_cons_self, rfl, fun other mem =>
      all other (mem_cons_of_mem saved mem)⟩
  | cons =>
    obtain ⟨upper, lower, opened, outer, forward, split, long, len, rfl, found, outside, all,
      rest⟩ := framed
    cases upper with
    | nil =>
      have same : (saved :: stack).length = lower.length := by rw [split, nil_append]
      rw [length_cons] at same
      omega
    | cons _ upper =>
      obtain ⟨rfl, rfl⟩ := List.cons.inj split
      exact ⟨all saved mem_cons_self, upper, lower, opened, outer, forward, rfl, long,
        len, rfl, found, outside,
        fun other mem => all other (mem_cons_of_mem saved mem), rest⟩

theorem kept_in_groups (next : Vm) (agrees : InScope prog vm)
    (modifiers : next.modifiers = vm.modifiers)
    (modifierStack : next.modifierStack = vm.modifierStack)
    (groups : modifierGroups prog.instructions (point next) =
      modifierGroups prog.instructions (point vm)) :
    next.modifiers = lexicalModifiers prog (point next) ∧ next.modifierStack =
        savedModifiers prog (modifierGroups prog.instructions (point next)) := by
  rw [modifiers, modifierStack, lexicalModifiers, groups]
  exact ⟨agrees.current, agrees.stacked⟩

theorem point_of_running (runs : vm.failing = none) : point vm = vm.pc := by
  rw [point, runs]
  rfl

theorem framed_leave {frame : LookFrame} (framed : Framed code (frame :: frames) looks floor stack)
    :
    ∃ (opened : Nat) (forward : Bool), looks = opened :: lookarounds code opened ∧
      code[opened]? = some (.lookStart frame.positive forward frame.finish) ∧
      Framed code frames (lookarounds code opened) frame.btFloor
        (truncate stack frame.backtrackLength) ∧
      ∀ saved ∈ truncate stack frame.backtrackLength, saved ∈ stack := by
  obtain ⟨upper, lower, opened, outer, forward, rfl, long, len, rfl, found, rfl, _, rest⟩ :=
    framed
  rw [len, ← long]
  simp only [truncate, length_append, Nat.add_sub_cancel, drop_left]
  exact ⟨opened, forward, rfl, found, rest, fun saved mem =>
    mem_append_right upper mem⟩

section
variable (agrees : InScope prog vm) (runs : vm.failing = none)
  (nested : Nested prog.instructions 0 prog.instructions.length)

include agrees nested

section
include runs

theorem made_here_in_scope (made : MadeHere prog vm saved) : SavedInScope prog saved := by
  have cur := agrees.current
  have stacked := agrees.stacked
  rw [point_of_running runs] at cur stacked
  have groups := groups_of_place (made.place nested)
  refine ⟨?_, ?_, made.resumes nested⟩
  · rw [made.modifiers, cur, lexicalModifiers, lexicalModifiers, groups]
  · rw [made.depth, stacked, saved_modifiers_length, groups]

theorem stays_in_scope (stays : Stays prog vm next) (frames : next.frames = vm.frames)
    (floor : next.btFloor = vm.btFloor)
    (stack : next.backtrackStack = vm.backtrackStack ∨
      ∃ saved, next.backtrackStack = saved :: vm.backtrackStack ∧ MadeHere prog vm saved) :
    InScope prog next := by
  obtain ⟨looks, framed, inside⟩ := agrees.framed
  have here := point_of_running runs
  have groups : modifierGroups prog.instructions (point next) =
      modifierGroups prog.instructions (point vm) := by
    rcases stays.place with fails | ⟨goes, place⟩
    · rw [here, point, fails]
      rfl
    · rw [here, point_of_running goes, groups_of_place (place nested)]
  obtain ⟨cur, stacked⟩ := kept_in_groups next agrees stays.modifiers stays.modifierStack groups
  refine ⟨cur, stacked, ?_, looks, ?_, fun goes => ?_⟩
  · rcases stack with same | ⟨saved, pushed, made⟩
    · rw [same]
      exact agrees.saved
    · rw [pushed]
      exact forall_mem_cons.mpr ⟨made_here_in_scope agrees runs nested made, agrees.saved⟩
  · rw [frames, floor]
    rcases stack with same | ⟨saved, pushed, made⟩
    · rwa [same]
    · rw [pushed]
      exact framed_push framed ((looks_of_place (made.place nested)).trans (inside runs))
  · rcases stays.place with fails | ⟨-, place⟩
    · rw [fails] at goes
      cases goes
    · exact (looks_of_place (place nested)).trans (inside runs)

omit nested in
theorem pushes_in_scope {ignoreCase multiline dotAll : Option Bool}
    (found : prog.instructions[vm.pc]? = some (.pushModifiers ignoreCase multiline dotAll)) :
    InScope prog (vm.pushModifiers ignoreCase multiline dotAll) := by
  have here := point_of_running runs
  have there : point (vm.pushModifiers ignoreCase multiline dotAll) = vm.pc + 1 :=
    point_of_running runs
  have opens : enclosing prog.instructions (vm.pc + 1) =
      vm.pc :: enclosing prog.instructions vm.pc := enclosing_succ found
  have groups : modifierGroups prog.instructions (vm.pc + 1) =
      vm.pc :: modifierGroups prog.instructions vm.pc := by
    simp [modifierGroups, opens, isPush, found]
  have looksSame : lookarounds prog.instructions (vm.pc + 1) =
      lookarounds prog.instructions vm.pc := by
    simp [lookarounds, opens, isLook, found]
  obtain ⟨looks, framed, inside⟩ := agrees.framed
  refine ⟨?_, ?_, agrees.saved, looks, framed, fun _ => looksSame.trans (inside runs)⟩
  · rw [there]
    simp [Vm.pushModifiers, lexicalModifiers, groups, modifiersWithin, found, agrees.current, here]
  · rw [there, groups]
    simp [Vm.pushModifiers, savedModifiers, agrees.stacked, agrees.current, here, lexicalModifiers]

theorem pops_in_scope (found : prog.instructions[vm.pc]? = some .popModifiers) :
    InScope prog vm.popModifiers := by
  obtain ⟨opened, ignoreCase, multiline, dotAll, openedFound, closes⟩ := (nested_at nested found).2
  have after : enclosing prog.instructions (vm.pc + 1) = enclosing prog.instructions opened := by
    rw [enclosing_succ found, closes]
    rfl
  have groups : modifierGroups prog.instructions vm.pc =
      opened :: modifierGroups prog.instructions opened := by
    simp [modifierGroups, closes, isPush, openedFound]
  have looksSame : lookarounds prog.instructions vm.pc = lookarounds prog.instructions opened := by
    simp [lookarounds, closes, isLook, openedFound]
  have stacked := agrees.stacked
  rw [point_of_running runs, groups, savedModifiers] at stacked
  obtain ⟨looks, framed, inside⟩ := agrees.framed
  have popped : vm.popModifiers = { vm with
      modifierStack := savedModifiers prog (modifierGroups prog.instructions opened)
      modifiers := modifiersWithin prog (modifierGroups prog.instructions opened)
      pc := vm.pc + 1 } := by
    simp [Vm.popModifiers, stacked]
  have there : point vm.popModifiers = vm.pc + 1 := by simp [popped, point, runs]
  have groupsAfter := groups_of_place after
  rw [popped] at there ⊢
  refine ⟨?_, ?_, agrees.saved, looks, framed, fun _ => ?_⟩
  · rw [there, lexicalModifiers, groupsAfter]
  · rw [there, groupsAfter]
  · rw [looks_of_place after, ← looksSame]
    exact inside runs

omit nested in
theorem starts_in_scope
    (found : prog.instructions[vm.pc]? = some (.lookStart positive forward finish)) :
    InScope prog (vm.startLook positive forward finish) := by
  have opens : enclosing prog.instructions (vm.pc + 1) =
      vm.pc :: enclosing prog.instructions vm.pc := enclosing_succ found
  have looksNext : lookarounds prog.instructions (vm.pc + 1) =
      vm.pc :: lookarounds prog.instructions vm.pc := by
    simp [lookarounds, opens, isLook, found]
  obtain ⟨looks, framed, inside⟩ := agrees.framed
  have sameLooks := inside runs
  obtain ⟨cur, stacked⟩ := kept_in_groups (vm.startLook positive forward finish) agrees rfl rfl
    (by simp [point, Vm.startLook, runs, modifierGroups, opens, isPush, found])
  refine ⟨cur, stacked, agrees.saved, vm.pc :: looks, ?_, fun _ => ?_⟩
  · exact ⟨[], vm.backtrackStack, vm.pc, looks, forward, rfl, rfl, rfl, rfl, found, sameLooks,
      forall_mem_nil _, framed⟩
  · rwa [← sameLooks]

omit agrees runs in
theorem groups_at_end {opened : Nat} {outer : List Nat}
    (sameLooks : lookarounds prog.instructions vm.pc = opened :: outer)
    (ends : prog.instructions[vm.pc]? = some .lookEnd ∨
      prog.instructions[vm.pc]? = some .accept) :
    modifierGroups prog.instructions vm.pc = modifierGroups prog.instructions opened := by
  rcases ends with found | found
  · obtain ⟨start, positive, direction, finish, startFound, startCloses⟩ :=
      (nested_at nested found).2
    have looksHere : lookarounds prog.instructions vm.pc =
        start :: lookarounds prog.instructions start := by
      simp [lookarounds, startCloses, isLook, startFound]
    obtain rfl := (List.cons.inj (looksHere.symm.trans sameLooks)).1
    simp [modifierGroups, startCloses, isPush, startFound]
  · -- The end of the program lies in no lookaround, so no frame can be open there.
    have none : enclosing prog.instructions vm.pc = [] := (nested_at nested found).2
    simp [lookarounds, none] at sameLooks

end

theorem leaves_in_scope (cond : KeepsScope prog vm) {frame : LookFrame}
    (low : vm.failing = none ∨ vm.backtrackStack.length ≤ vm.btFloor)
    (listed : vm.frames = frame :: next.frames)
    (stack : next.backtrackStack = truncate vm.backtrackStack frame.backtrackLength)
    (floor : next.btFloor = frame.btFloor)
    (modifiers : next.modifiers = vm.modifiers ∧ next.modifierStack = vm.modifierStack)
    (ends : vm.failing = none → prog.instructions[vm.pc]? = some .lookEnd ∨
      prog.instructions[vm.pc]? = some .accept)
    (place : if frame.positive = vm.failing.isNone then
        next.failing = none ∧ next.pc = frame.finish
      else next.failing = some (point vm)) :
    InScope prog next := by
  obtain ⟨looks, framed, inside⟩ := agrees.framed
  rw [listed] at framed
  obtain ⟨opened, forward, rfl, openedFound, outside, kept⟩ := framed_leave framed
  have finish := (nested_at nested openedFound).1 frame.finish mem_cons_self
  have goesOn : next.failing = none → next.pc = frame.finish := by
    intro goes
    split at place
    · exact place.2
    · rw [goes] at place
      cases place
  have groups : modifierGroups prog.instructions (point next) =
      modifierGroups prog.instructions (point vm) := by
    split at place
    · rename_i same
      rw [point_of_running place.1, place.2]
      cases failing : vm.failing with
      | none =>
        rw [point_of_running failing, groups_of_place finish]
        exact (groups_at_end nested (inside failing) (ends failing)).symm
      | some failed =>
        have permitted := cond failed failing
        rw [if_pos (low.resolve_left (by simp [failing])), listed] at permitted
        rw [point, failing]
        exact (permitted frame rfl (by simpa [failing] using same)).symm
    · rw [point, place]
      rfl
  obtain ⟨cur, stacked⟩ := kept_in_groups next agrees modifiers.1 modifiers.2 groups
  refine ⟨cur, stacked, ?_, lookarounds prog.instructions opened, ?_, fun goes => ?_⟩
  · rw [stack]
    exact fun saved mem => agrees.saved saved (kept saved mem)
  · rw [stack, floor]
    exact outside
  · rw [goesOn goes]
    exact looks_of_place finish

omit nested in
theorem resumes_in_scope (cond : KeepsScope prog vm) (fails : vm.failing.isSome)
    (listed : vm.backtrackStack = saved :: stack) (above : vm.btFloor ≤ stack.length)
    (frames : next.frames = vm.frames) (floor : next.btFloor = vm.btFloor)
    (place : next.failing = some saved.pc ∨ next.failing = none ∧ next.pc = saved.resumePc)
    (modifiers : next.modifiers = saved.modifiers ∧
      next.modifierStack = truncate vm.modifierStack saved.modifierStackLength)
    (again : next.backtrackStack = stack ∨
      ∃ again, next.backtrackStack = again :: stack ∧ again.pc = saved.pc ∧
        again.resumePc = saved.resumePc ∧ again.modifiers = saved.modifiers ∧
        (again.modifierStackLength = saved.modifierStackLength ∨
          again.modifierStackLength = next.modifierStack.length)) :
    InScope prog next := by
  obtain ⟨failed, failing⟩ := Option.isSome_iff_exists.mp fails
  have suffix := cond failed failing
  rw [listed, if_neg (by simpa using Nat.lt_succ_of_le above)] at suffix
  have savedAll := agrees.saved
  rw [listed] at savedAll
  obtain ⟨kept, stackKept⟩ := forall_mem_cons.mp savedAll
  obtain ⟨looks, framed, _⟩ := agrees.framed
  rw [listed] at framed
  obtain ⟨savedLooks, framedRest⟩ := framed_pop framed above
  obtain ⟨modifiers, modifierStack⟩ := modifiers
  -- Resumed from inside every group it lies in, a choice point has its stack of modifiers back.
  rw [agrees.stacked, point, failing, kept.depth] at modifierStack
  rw [Option.getD_some, truncate_saved_modifiers (suffix saved rfl)] at modifierStack
  rw [kept.modifiers] at modifiers
  have there : enclosing prog.instructions (point next) = enclosing prog.instructions saved.pc := by
    rcases place with exhausted | ⟨runs, pcIs⟩
    · rw [point, exhausted]
      rfl
    · rw [point_of_running runs, pcIs, kept.resumes]
  refine ⟨?_, ?_, ?_, looks, ?_, fun runs => ?_⟩
  · rw [modifiers, lexicalModifiers, lexicalModifiers, groups_of_place there]
  · rw [modifierStack, groups_of_place there]
  · rcases again with same | ⟨again, pushed, againPc, againResume, againModifiers, depth⟩
    · rwa [same]
    · rw [pushed]
      refine forall_mem_cons.mpr ⟨⟨?_, ?_, ?_⟩, stackKept⟩
      · rw [againModifiers, againPc, kept.modifiers]
      · rw [againPc]
        rcases depth with sameDepth | newDepth
        · rw [sameDepth, kept.depth]
        · rw [newDepth, modifierStack, saved_modifiers_length]
      · rw [againPc, againResume, kept.resumes]
  · rw [frames, floor]
    rcases again with same | ⟨again, pushed, againPc, _⟩
    · rwa [same]
    · rw [pushed]
      exact framed_push framedRest (by rw [againPc, savedLooks])
  · rw [← point_of_running runs, looks_of_place there, savedLooks]

theorem effect_in_scope (cond : KeepsScope prog vm) (effect : Effect host prog input vm next) :
    InScope prog next := by
  cases effect with
  | goesOn runs quiet scoping =>
    cases scoping with
    | stays stays =>
      exact stays_in_scope agrees runs nested stays quiet.frames quiet.floor (.inl quiet.stack)
    | pushes _ _ _ found pushed =>
      rw [pushed]
      exact { pushes_in_scope agrees runs found with }
    | pops found popped =>
      rw [popped]
      exact { pops_in_scope agrees runs nested found with }
  | saves runs saved _ quiet here stays =>
    exact stays_in_scope agrees runs nested stays quiet.frames quiet.floor
      (.inr ⟨saved, quiet.stack, here⟩)
  | starts runs _ _ _ found started =>
    rw [started]
    exact { starts_in_scope agrees runs found with }
  | leaves low _ frames stack floor _ _ _ modifiers ends place =>
    exact leaves_in_scope agrees nested cond low frames stack floor modifiers ends place
  | resumes fails _ _ listed above frames floor _ restored modifiers again =>
    refine resumes_in_scope agrees cond fails listed above frames floor restored.place modifiers ?_
    rcases again with same | ⟨-, again, pushed, -, kept, -⟩
    · exact .inl same
    · exact .inr ⟨again, pushed, kept⟩

end

def counted (vm : Vm) : Vm := { vm with steps := vm.steps + 1 }

theorem Effect.of_counted (effect : Effect host prog input (counted vm) next) :
    Effect host prog input vm next := by
  cases effect with
  | goesOn runs quiet scoping =>
    refine .goesOn runs { quiet with } ?_
    cases scoping with
    | stays stays => exact .stays { stays with }
    | pushes ignoreCase multiline dotAll found pushed =>
      exact .pushes ignoreCase multiline dotAll found pushed
    | pops found popped =>
      refine .pops found (popped.trans ?_)
      unfold Vm.popModifiers counted
      cases vm.modifierStack <;> rfl
  | saves runs saved made quiet here stays =>
    refine .saves runs saved ?_ { quiet with } { here with } { stays with }
    cases saved <;> exact made
  | starts runs positive forward finish found started =>
    exact .starts runs positive forward finish found started
  | leaves low frame frames stack floor backward pos registers modifiers ends place =>
    exact .leaves low frame frames stack floor backward pos registers modifiers ends place
  | resumes fails saved stack listed above frames floor backward restored modifiers again =>
    exact .resumes fails saved stack listed above frames floor backward restored modifiers again

def Vm.advance (platform : Platform) (program : Program) (input : Input) (vm : Vm) (_ : Unit) :
    Option Vm :=
  match vm.step platform program input with
  | .running next => some next
  | .finished _ _ => none

theorem advance_effect (steps : Vm.advance host prog input vm () = some next) :
    Effect host prog input vm next := by
  unfold Vm.advance Vm.step at steps
  split at steps <;> cases steps
  rename_i steps
  split at steps
  · rename_i fails
    exact step_failing_effect fails steps
  · rename_i runs
    have runs : (counted vm).failing = none := by simpa [counted] using runs
    unfold Vm.stepRunning at steps
    simp only at steps
    split at steps
    · cases steps
    · split at steps
      · cases steps
        exact Effect.of_counted (fail_effect runs)
      · rename_i found
        split at steps
        · exact Effect.of_counted (step_fast_effect runs found steps)
        · exact Effect.of_counted (step_general_effect runs found steps)

end

/-- In every run whose steps keep scopes, the modifiers in effect at an instruction are those
of its place in the pattern. -/
theorem modifiers_are_lexical (platform : Platform) (pattern : Pattern) (input : Input)
    (start : Nat) (vm : Vm) (run : Execution (Vm.advance platform (compile platform pattern) input)
      (fun state _ => KeepsScope (compile platform pattern) state)
      (Vm.new (compile platform pattern) start) vm) (running : vm.failing = none) :
    vm.modifiers = lexicalModifiers (compile platform pattern) vm.pc := by
  have nested := compile_nested platform pattern
  have agrees : InScope (compile platform pattern) vm := by
    apply run.invariant
    · exact ⟨rfl, rfl, forall_mem_nil _, [], ⟨rfl, forall_mem_nil _⟩, fun _ => rfl⟩
    · intro state _ next holds permitted stepped
      exact effect_in_scope holds nested permitted (advance_effect stepped)
  have current := agrees.current
  rwa [point, running] at current

/-- The pattern `(?i:a|ab)c`. -/
def alternativesInGroup : Pattern where
  disjunction :=
    .cons (.cons (.modifierGroup ⟨true, false, false⟩ ⟨false, false, false⟩
        (.cons (.cons (.literal 0x61) none .nil)
          (.cons (.cons (.literal 0x61) none (.cons (.literal 0x62) none .nil)) .nil))) none
      (.cons (.literal 0x63) none .nil)) .nil
  flags := ⟨false, false, false, false, false⟩
  captureCount := 0
  namedGroups := []

def resumedInGroup : Vm where
  pc := 5
  pos := 0
  registers := [0, -1]
  backtrackStack := []
  steps := 4
  modifiers := ⟨true, false, false⟩
  modifierStack := [⟨false, false, false⟩]
  backward := false
  btFloor := 0
  frames := []
  failing := none

theorem modifiers_are_lexical_in_group :
    resumedInGroup.modifiers =
      lexicalModifiers (compile asciiPlatform alternativesInGroup) resumedInGroup.pc := by
  have run : Execution
      (Vm.advance asciiPlatform (compile asciiPlatform alternativesInGroup) [0x62])
      (fun state _ => KeepsScope (compile asciiPlatform alternativesInGroup) state)
      (Vm.new (compile asciiPlatform alternativesInGroup) 0) resumedInGroup := by
    apply Execution.of_follow
      (fun state _ => decide (KeepsScope (compile asciiPlatform alternativesInGroup) state))
      (List.replicate 5 ()) (fun _ _ permitted => of_decide_eq_true permitted) Execution.refl
    decide +kernel
  exact modifiers_are_lexical asciiPlatform alternativesInGroup [0x62] 0 resumedInGroup run rfl

/-- On `abCc` the machine leaves the group after `a`, fails at `c`, resumes the second
alternative with the group's modifiers but without their saved outer value, and so leaves
the group a second time with case still ignored: `C` is accepted for `c`. -/
theorem modifiers_leak_from_group :
    ¬ ∀ (platform : Platform) (pattern : Pattern) (input : Input) (start : Nat) (vm : Vm),
      Execution (Vm.advance platform (compile platform pattern) input) Unrestricted
        (Vm.new (compile platform pattern) start) vm →
      vm.failing = none → vm.modifiers = lexicalModifiers (compile platform pattern) vm.pc := by
  intro lexical
  let leaked : Vm := { resumedInGroup with pc := 8, pos := 2, steps := 10, modifierStack := [] }
  have run : Execution
      (Vm.advance asciiPlatform (compile asciiPlatform alternativesInGroup)
        [0x61, 0x62, 0x43, 0x63])
      Unrestricted (Vm.new (compile asciiPlatform alternativesInGroup) 0) leaked := by
    apply Execution.of_actions (List.replicate 11 ())
    decide +kernel
  have wrong := lexical asciiPlatform alternativesInGroup [0x61, 0x62, 0x43, 0x63] 0 leaked run rfl
  revert wrong
  decide +kernel

end Ladybone.Regex.Scopes
