import Ladybone.Regex.Machine
import Ladybone.Regex.Nesting

/-!
# What a step does

A step of either loop leaves lookarounds and choice points as they are, saves a choice point,
enters or leaves a lookaround, or resumes the last choice point.
-/

namespace Ladybone.Regex.Effects

open Regex.Syntax Regex.Machine Regex.Nesting List Vm

def registersOf : SavedState → List Int
  | .normal _ _ registers _ _ => registers
  | .greedy _ _ _ registers _ _ _ _ => registers
  | .lazy _ _ registers _ _ _ _ => registers

/-- What the instruction of a state saves there. A lazy `RepeatCheck` saves the raised counter; a
loop is saved again when it has given back a character or taken one more. -/
def Saves (program : Program) (vm : Vm) : SavedState → Prop
  | .normal pc pos registers _ _ =>
    pos = vm.pos ∧
      match program.instructions[vm.pc]? with
      | some (.split _ other) => pc = other ∧ registers = vm.registers
      | some (.repeatCheck counter _ _ body greedy) =>
        if greedy then pc = vm.pc + 1 ∧ registers = vm.registers
        else
          pc = body ∧ registers = vm.registers.set counter (vm.registers.getD counter (-1) + 1)
      | _ => False
  | .greedy pc startPos _ registers _ _ _ _ =>
    (∃ matcher min max, program.instructions[vm.pc]? = some (.greedyLoop matcher min max)) ∧
      pc = vm.pc ∧ startPos = vm.pos ∧ registers = vm.registers
  | .lazy pc _ registers _ _ _ _ =>
    (∃ matcher min max, program.instructions[vm.pc]? = some (.lazyLoop matcher min max)) ∧
      pc = vm.pc ∧ registers = vm.registers

section
variable (program : Program) (vm : Vm)

/-- In a program with matching brackets, the two places lie in the same ones. -/
def SamePlace (left right : Nat) : Prop :=
  Nested program.instructions 0 program.instructions.length →
    enclosing program.instructions left = enclosing program.instructions right

structure MadeHere (saved : SavedState) : Prop where
  modifiers : saved.modifiers = vm.modifiers
  depth : saved.modifierStackLength = vm.modifierStack.length
  place : SamePlace program saved.pc vm.pc
  resumes : SamePlace program saved.resumePc saved.pc

/-- The modifiers stay as they are, and a step that does not fail stays in its brackets. -/
structure Stays (next : Vm) : Prop where
  modifiers : next.modifiers = vm.modifiers
  modifierStack : next.modifierStack = vm.modifierStack
  place : next.failing = some vm.pc ∨ next.failing = none ∧ SamePlace program next.pc vm.pc

inductive Scoping (next : Vm) : Prop where
  | stays (stays : Stays program vm next)
  | pushes (ignoreCase multiline dotAll : Option Bool)
      (found : program.instructions[vm.pc]? = some (.pushModifiers ignoreCase multiline dotAll))
      (pushed : next =
        { vm.pushModifiers ignoreCase multiline dotAll with steps := next.steps })
  | pops (found : program.instructions[vm.pc]? = some .popModifiers)
      (popped : next = { vm.popModifiers with steps := next.steps })

end

section
variable (platform : Platform) (program : Program) (input : Input)

/-- The state a choice point is resumed to: with its registers, and at its place unless it is a
loop that has nothing left to try. -/
def Restored (saved : SavedState) (next : Vm) : Prop :=
  next.registers = registersOf saved ∧
    match saved with
    | .normal pc pos _ _ _ => next.failing = none ∧ next.pc = pc ∧ next.pos = pos
    | .greedy pc startPos currentPos _ min backward modifiers _ =>
      next.failing = some pc ∨ next.failing = none ∧ next.pc = pc + 1 ∧
        (if backward then
          giveBackBackward platform program input modifiers pc startPos currentPos min
        else giveBackForward platform program input modifiers pc startPos currentPos min).1 =
          some next.pos
    | .lazy pc pos _ _ _ _ _ =>
      next.failing = some pc ∨ next.failing = none ∧ next.pc = pc + 1 ∧
        next.pos = advanceChar program.unicode input next.backward pos

structure Quiet (vm next : Vm) : Prop where
  stack : next.backtrackStack = vm.backtrackStack
  frames : next.frames = vm.frames
  floor : next.btFloor = vm.btFloor
  backward : next.backward = vm.backward
  sized : next.registers.length = vm.registers.length

inductive Effect (vm next : Vm) : Prop where
  | goesOn (runs : vm.failing = none) (quiet : Quiet vm next) (scoping : Scoping program vm next)
  | saves (runs : vm.failing = none) (saved : SavedState) (made : Saves program vm saved)
      (quiet : Quiet { vm with backtrackStack := saved :: vm.backtrackStack } next)
      (here : MadeHere program vm saved) (stays : Stays program vm next)
  | starts (runs : vm.failing = none) (positive forward : Bool) (finish : Nat)
      (found : program.instructions[vm.pc]? = some (.lookStart positive forward finish))
      (started : next = { vm.startLook positive forward finish with steps := next.steps })
  | leaves (low : vm.failing = none ∨ vm.backtrackStack.length ≤ vm.btFloor)
      (frame : LookFrame) (frames : vm.frames = frame :: next.frames)
      (stack : next.backtrackStack = truncate vm.backtrackStack frame.backtrackLength)
      (floor : next.btFloor = frame.btFloor) (backward : next.backward = frame.backward)
      (pos : next.pos = frame.pos)
      (registers : next.registers = frame.registers ∨
        vm.failing = none ∧ frame.positive = true ∧ next.registers = vm.registers)
      (modifiers : next.modifiers = vm.modifiers ∧ next.modifierStack = vm.modifierStack)
      (ends : vm.failing = none → program.instructions[vm.pc]? = some .lookEnd ∨
        program.instructions[vm.pc]? = some .accept)
      (place : if frame.positive = vm.failing.isNone then
          next.failing = none ∧ next.pc = frame.finish
        else next.failing = some (vm.failing.getD vm.pc))
  | resumes (fails : vm.failing.isSome) (saved : SavedState) (stack : List SavedState)
      (listed : vm.backtrackStack = saved :: stack) (above : vm.btFloor ≤ stack.length)
      (frames : next.frames = vm.frames) (floor : next.btFloor = vm.btFloor)
      (backward : next.backward = vm.backward)
      (restored : Restored platform program input saved next)
      (modifiers : next.modifiers = saved.modifiers ∧
        next.modifierStack = truncate vm.modifierStack saved.modifierStackLength)
      (again : next.backtrackStack = stack ∨ next.failing = none ∧
        ∃ again, next.backtrackStack = again :: stack ∧ registersOf again = registersOf saved ∧
          (again.pc = saved.pc ∧ again.resumePc = saved.resumePc ∧
            again.modifiers = saved.modifiers ∧
            (again.modifierStackLength = saved.modifierStackLength ∨
              again.modifierStackLength = next.modifierStack.length)) ∧
          ∀ state, Saves program state saved → Saves program state again)

end

variable {host : Platform} {prog : Program} {input : Input} {insn : Instruction} {vm next : Vm}

theorem Restored.place {saved : SavedState} (restored : Restored host prog input saved next) :
    next.failing = some saved.pc ∨ next.failing = none ∧ next.pc = saved.resumePc := by
  cases saved with
  | normal => exact .inr ⟨restored.2.1, restored.2.2.1⟩
  | greedy | lazy => exact restored.2.imp_right (And.imp_right And.left)

theorem Saves.sized {saved : SavedState} (made : Saves prog vm saved) :
    (registersOf saved).length = vm.registers.length := by
  cases saved with
  | normal =>
    obtain ⟨-, made⟩ := made
    split at made
    · rw [registersOf, made.2]
    · split at made
      · rw [registersOf, made.2]
      · rw [registersOf, made.2, length_set]
    · exact made.elim
  | greedy => rw [registersOf, made.2.2.2]
  | lazy => rw [registersOf, made.2.2]

/-! ## Places -/

theorem nested_at {code : List Instruction} {pc : Nat} (nested : Nested code 0 code.length)
    (found : code[pc]? = some insn) :
    (∀ target ∈ targets insn, enclosing code target = enclosing code pc) ∧
      ClosesInnermost code pc insn :=
  nested.inside pc insn (Nat.zero_le _) (List.getElem?_eq_some_iff.mp found).1 found

theorem fuse_saves_place {pos : Nat} (registers : List Int) (pc : Nat) :
    enclosing prog.instructions
        (fuseSaves pos (prog.instructions.drop pc) registers pc).2 =
      enclosing prog.instructions pc := by
  generalize listed : prog.instructions.drop pc = code
  induction code generalizing registers pc with
  | nil => rfl
  | cons insn rest ih =>
    have found : prog.instructions[pc]? = some insn := by
      rw [← head?_drop, listed, head?_cons]
    have restListed : prog.instructions.drop (pc + 1) = rest := by
      rw [← tail_drop, listed, tail_cons]
    cases insn with
    | save | clearRegister =>
      rw [fuseSaves, ih _ (pc + 1) restListed, enclosing_succ found]
      rfl
    | _ => rfl

section
variable (found : prog.instructions[vm.pc]? = some insn)
include found

theorem same_place_next (plain : isBracket insn = false) : SamePlace prog (vm.pc + 1) vm.pc := by
  intro
  rw [enclosing_succ found, enclosing_after_plain plain]

theorem same_place_target {target : Nat} (listed : target ∈ targets insn) :
    SamePlace prog target vm.pc :=
  fun nested => (nested_at nested found).1 target listed

end

/-! ## Handlers -/

theorem length_clear_all (registers : List Int) (cleared : List Nat) :
    (clearAll registers cleared).length = registers.length := by
  induction cleared generalizing registers with
  | nil => rfl
  | cons first rest ih => rw [clearAll, foldl_cons, ← clearAll, ih, length_set]

theorem length_fuse_saves (pos : Nat) (code : List Instruction) (registers : List Int) (pc : Nat) :
    (fuseSaves pos code registers pc).1.length = registers.length := by
  fun_induction fuseSaves with
  | case1 _ _ _ _ ih => rw [ih, length_set]
  | case2 _ _ _ _ ih => rw [ih, length_set]
  | case3 => rfl

section
variable (runs : vm.failing = none)
include runs

theorem fail_effect : Effect host prog input vm vm.fail :=
  .goesOn runs ⟨rfl, rfl, rfl, rfl, rfl⟩ (.stays ⟨rfl, rfl, .inl rfl⟩)

theorem move_effect {pc pos : Nat} {registers : List Int} (place : SamePlace prog pc vm.pc)
    (sized : registers.length = vm.registers.length) :
    Effect host prog input vm { vm with pc, pos, registers } :=
  .goesOn runs ⟨rfl, rfl, rfl, rfl, sized⟩ (.stays ⟨rfl, rfl, .inr ⟨runs, place⟩⟩)

theorem save_effect {saved : SavedState} {pc pos : Nat} {registers : List Int}
    (made : Saves prog vm saved) (here : MadeHere prog vm saved) (place : SamePlace prog pc vm.pc)
    (sized : registers.length = vm.registers.length) :
    Effect host prog input vm
      { vm with pc, pos, registers, backtrackStack := saved :: vm.backtrackStack } :=
  .saves runs saved made ⟨rfl, rfl, rfl, rfl, sized⟩ here ⟨rfl, rfl, .inr ⟨runs, place⟩⟩

theorem continue_if_effect (place : SamePlace prog (vm.pc + 1) vm.pc) (holds : Bool) :
    Effect host prog input vm (vm.continueIf holds) := by
  cases holds with
  | false => exact fail_effect runs
  | true => exact move_effect runs place rfl

theorem move_or_fail_effect (place : SamePlace prog (vm.pc + 1) vm.pc) (moved : Option Nat) :
    Effect host prog input vm (vm.moveOrFail moved) := by
  cases moved with
  | none => exact fail_effect runs
  | some => exact move_effect runs place rfl

theorem check_progress_effect (place : SamePlace prog (vm.pc + 1) vm.pc) (register : Nat)
    (cleared : List Nat) : Effect host prog input vm (vm.checkProgress register cleared) := by
  unfold checkProgress
  split
  · exact .goesOn runs ⟨rfl, rfl, rfl, rfl, length_clear_all ..⟩ (.stays ⟨rfl, rfl, .inl rfl⟩)
  · exact move_effect runs place (length_set ..)

theorem save_fused_effect : Effect host prog input vm (vm.saveFused prog) :=
  move_effect runs (fun _ => fuse_saves_place _ _) (length_fuse_saves ..)

theorem body_matched_effect (ends : prog.instructions[vm.pc]? = some .lookEnd ∨
    prog.instructions[vm.pc]? = some .accept) (steps : vm.bodyMatched = .running next) :
    Effect host prog input vm next := by
  unfold bodyMatched at steps
  split at steps
  · cases steps
  · rename_i frame frames listed
    split at steps
    · rename_i positive
      cases steps
      refine .leaves (.inl runs) frame listed rfl rfl rfl rfl (.inr ⟨runs, positive, rfl⟩)
        ⟨rfl, rfl⟩ (fun _ => ends) ?_
      rw [if_pos (by rw [positive, runs]; rfl)]
      exact ⟨runs, rfl⟩
    · rename_i negative
      cases steps
      refine .leaves (.inl runs) frame listed rfl rfl rfl rfl (.inl rfl) ⟨rfl, rfl⟩
        (fun _ => ends) ?_
      rw [if_neg (by simpa [runs] using negative), runs]
      rfl

end

theorem body_failed_effect (fails : vm.failing.isSome)
    (low : vm.backtrackStack.length ≤ vm.btFloor) (steps : vm.bodyFailed = .running next) :
    Effect host prog input vm next := by
  obtain ⟨failed, failing⟩ := Option.isSome_iff_exists.mp fails
  have running : vm.failing ≠ none := by simp [failing]
  unfold bodyFailed at steps
  split at steps
  · cases steps
  · rename_i frame frames listed
    split at steps
    · rename_i positive
      cases steps
      refine .leaves (.inr low) frame listed rfl rfl rfl rfl (.inl rfl) ⟨rfl, rfl⟩
        (absurd · running) ?_
      rw [if_neg (by simp [positive, failing]), failing]
      exact failing
    · rename_i negative
      cases steps
      refine .leaves (.inr low) frame listed rfl rfl rfl rfl (.inl rfl) ⟨rfl, rfl⟩
        (absurd · running) ?_
      rw [if_pos (by simpa [failing] using negative)]
      exact ⟨rfl, rfl⟩

section
variable (runs : vm.failing = none) (found : prog.instructions[vm.pc]? = some insn)
include runs found

theorem check_repeat_effect {counter min : Nat} {max : Option Nat} {body : Nat} {greedy : Bool}
    (isCheck : insn = .repeatCheck counter min max body greedy) :
    Effect host prog input vm (vm.checkRepeat counter min max body greedy) := by
  subst isCheck
  have behind := same_place_next found rfl
  have again : SamePlace prog body vm.pc := same_place_target found mem_cons_self
  unfold checkRepeat
  simp only
  split
  · exact move_effect runs again (length_set ..)
  · split
    · exact move_effect runs behind rfl
    · cases greedy with
      | true =>
        exact save_effect runs (by simp [Saves, found]) ⟨rfl, rfl, behind, fun _ => rfl⟩ again
          (length_set ..)
      | false =>
        exact save_effect runs (by simp [Saves, found]) ⟨rfl, rfl, again, fun _ => rfl⟩ behind rfl

theorem finish_greedy_effect {matcher : SimpleMatch} {min : Nat} {max : Option Nat}
    (isLoop : insn = .greedyLoop matcher min max) (consumed : Nat × Nat) :
    Effect host prog input vm (vm.finishGreedy min consumed) := by
  subst isLoop
  have behind := same_place_next found rfl
  unfold finishGreedy
  split
  · exact fail_effect runs
  · split
    · exact save_effect runs (by simp [Saves, found]) ⟨rfl, rfl, fun _ => rfl, behind⟩ behind rfl
    · exact move_effect runs behind rfl

theorem finish_lazy_effect {matcher : SimpleMatch} {min : Nat} {max : Option Nat}
    (isLoop : insn = .lazyLoop matcher min max) (consumed : Option Nat) :
    Effect host prog input vm (vm.finishLazy min max consumed) := by
  subst isLoop
  have behind := same_place_next found rfl
  cases consumed with
  | none => exact fail_effect runs
  | some =>
    exact save_effect runs (by simp [Saves, found]) ⟨rfl, rfl, fun _ => rfl, behind⟩ behind rfl

/-! ## Steps -/

theorem step_shared_effect (steps : vm.stepShared host prog input insn = .running next) :
    Effect host prog input vm next := by
  cases insn with
  | jump =>
    cases steps
    exact move_effect runs (same_place_target found mem_cons_self) rfl
  | split =>
    cases steps
    exact save_effect runs (by simp [Saves, found])
      ⟨rfl, rfl, same_place_target found (mem_cons_of_mem _ mem_cons_self), fun _ => rfl⟩
      (same_place_target found mem_cons_self) rfl
  | assertStart | assertEnd | assertWordBoundary | assertNonWordBoundary =>
    cases steps
    exact continue_if_effect runs (same_place_next found rfl) _
  | accept => exact body_matched_effect runs (.inr found) steps
  | lookEnd => exact body_matched_effect runs (.inl found) steps
  | fail =>
    cases steps
    exact fail_effect runs
  | backref | backrefNamed | stringPropertyMatch =>
    cases steps
    exact move_or_fail_effect runs (same_place_next found rfl) _
  | repeatStart =>
    cases steps
    exact move_effect runs (same_place_next found rfl) (length_set ..)
  | repeatCheck =>
    cases steps
    exact check_repeat_effect runs found rfl
  | lookStart positive forward finish =>
    cases steps
    exact .starts runs positive forward finish found rfl
  | pushModifiers ignoreCase multiline dotAll =>
    cases steps
    exact .goesOn runs ⟨rfl, rfl, rfl, rfl, rfl⟩ (.pushes ignoreCase multiline dotAll found rfl)
  | popModifiers =>
    cases steps
    refine .goesOn runs ?_ (.pops found rfl)
    unfold popModifiers
    split <;> exact ⟨rfl, rfl, rfl, rfl, rfl⟩
  | progressCheck =>
    cases steps
    exact check_progress_effect runs (same_place_next found rfl) _ _
  | _ =>
    cases steps
    exact move_effect runs (same_place_next found rfl) rfl

theorem step_fast_effect (steps : vm.stepFast host prog input insn = .running next) :
    Effect host prog input vm next := by
  unfold stepFast at steps
  split at steps
  · rename_i tested
    have plain : isBracket insn = false := by
      cases insn <;> first | rfl | cases tested
    cases steps
    exact move_or_fail_effect runs (same_place_next found plain) _
  · split at steps
    · cases steps
      exact save_fused_effect runs
    · cases steps
      exact save_fused_effect runs
    · cases steps
      exact finish_greedy_effect runs found rfl _
    · cases steps
      exact finish_lazy_effect runs found rfl _
    · exact step_shared_effect runs found steps

theorem step_general_effect (steps : vm.stepGeneral host prog input insn = .running next) :
    Effect host prog input vm next := by
  unfold stepGeneral at steps
  split at steps
  · rename_i tested
    have plain : isBracket insn = false := by
      cases insn <;> first | rfl | cases tested
    cases steps
    exact move_or_fail_effect runs (same_place_next found plain) _
  · split at steps
    · cases steps
      exact move_effect runs (same_place_next found rfl) (length_set ..)
    · cases steps
      exact move_effect runs (same_place_next found rfl) (length_set ..)
    · cases steps
      exact finish_greedy_effect runs found rfl _
    · cases steps
      exact finish_lazy_effect runs found rfl _
    · exact step_shared_effect runs found steps

end

theorem resume_effect {saved : SavedState} {stack : List SavedState} (fails : vm.failing.isSome)
    (listed : vm.backtrackStack = saved :: stack) (above : vm.btFloor ≤ stack.length) :
    Effect host prog input vm (vm.resume host prog input saved stack) := by
  cases saved with
  | normal =>
    exact .resumes fails _ stack listed above rfl rfl rfl ⟨rfl, rfl, rfl, rfl⟩ ⟨rfl, rfl⟩ (.inl rfl)
  | greedy =>
    simp only [resume]
    split
    · exact .resumes fails _ stack listed above rfl rfl rfl ⟨rfl, .inl rfl⟩ ⟨rfl, rfl⟩ (.inl rfl)
    · rename_i given
      refine .resumes fails _ stack listed above rfl rfl rfl ⟨rfl, .inr ⟨rfl, rfl, given⟩⟩
        ⟨rfl, rfl⟩ ?_
      split <;> split
      · exact .inr ⟨rfl, _, rfl, rfl, ⟨rfl, rfl, rfl, .inl rfl⟩, fun _ made => made⟩
      · exact .inl rfl
      · exact .inr ⟨rfl, _, rfl, rfl, ⟨rfl, rfl, rfl, .inl rfl⟩, fun _ made => made⟩
      · exact .inl rfl
  | lazy =>
    simp only [resume]
    split
    · exact .resumes fails _ stack listed above rfl rfl rfl ⟨rfl, .inl rfl⟩ ⟨rfl, rfl⟩ (.inl rfl)
    · rename_i taken
      refine .resumes fails _ stack listed above rfl rfl rfl ⟨rfl, .inr ⟨rfl, rfl, ?_⟩⟩ ⟨rfl, rfl⟩
        (.inr ⟨rfl, _, rfl, rfl, ⟨rfl, rfl, rfl, .inr rfl⟩, fun _ made => made⟩)
      split at taken
      · cases taken
      · split at taken
        · obtain ⟨codePoint, -, taken⟩ := Option.bind_eq_some_iff.mp taken
          split at taken <;> cases taken
          rfl
        · cases taken

theorem step_failing_effect (fails : vm.failing.isSome)
    (steps : vm.stepFailing host prog input = .running next) : Effect host prog input vm next := by
  unfold stepFailing at steps
  split at steps
  · rename_i low
    exact body_failed_effect fails low steps
  · rename_i above
    split at steps
    · rename_i empty
      exact body_failed_effect fails (by simp [empty]) steps
    · rename_i saved stack listed
      cases steps
      rw [listed, length_cons] at above
      exact resume_effect fails listed (by omega)

end Ladybone.Regex.Effects
