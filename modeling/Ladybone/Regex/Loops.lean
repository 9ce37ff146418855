import Ladybone.Regex.Effects

/-!
# The two loops of the machine

A legacy pattern going forward runs in `run_fast`, which looks at code units and executes a run
of `Save` and `ClearRegister` in one turn. From there it ends as `run_general` does.
-/

namespace Ladybone.Regex.Loops

open Regex.Syntax Regex.Machine Regex.Effects List Vm

inductive Loop where
  | fast
  | general
deriving DecidableEq

structure Setting where
  platform : Platform
  program : Program
  input : Input

variable (s : Setting)

/-- One instruction of `run_general`, which has the greedy loop of `run_fast` for the states
that one is made for. -/
def stepOfGeneral (vm : Vm) (instruction : Instruction) : Outcome :=
  match instruction with
  | .greedyLoop _ _ _ =>
    if !s.program.unicode && !vm.backward then
      vm.stepFast s.platform s.program s.input instruction
    else vm.stepGeneral s.platform s.program s.input instruction
  | _ => vm.stepGeneral s.platform s.program s.input instruction

/-- Whether an instruction is executed by `run_fast`. It goes by what was called, whatever the
direction; the body of a lookaround has a frame and runs in `run`, which chooses itself. -/
def runsFast (loop : Loop) (vm : Vm) : Bool :=
  if vm.frames.isEmpty then loop = .fast else !s.program.unicode && !vm.backward

def turn (loop : Loop) (vm : Vm) : Outcome :=
  if vm.failing.isSome then vm.stepFailing s.platform s.program s.input
  else
    match s.program.instructions[vm.pc]? with
    | none => .running vm.fail
    | some instruction =>
      if runsFast s loop vm then vm.stepFast s.platform s.program s.input instruction
      else stepOfGeneral s vm instruction

def runLoop (loop : Loop) : (fuel steps : Nat) → Vm → VmResult × Vm
  | 0, _, vm => (.limitExceeded, vm)
  | fuel + 1, steps, vm =>
    if vm.failing.isNone && matchLimit ≤ steps + 1 then (.limitExceeded, vm)
    else
      match turn s loop vm with
      | .running next => runLoop loop fuel (if vm.failing.isSome then steps else steps + 1) next
      | .finished result final => (result, final)

def goOn (loop : Loop) (fuel steps : Nat) : Outcome → VmResult × Vm
  | .running next => runLoop s loop fuel steps next
  | .finished result final => (result, final)

def load (vm : Vm) : Nat :=
  vm.backtrackStack.length + vm.frames.length + if vm.failing.isSome then 1 else 0

/-- Every turn lowers the steps that are left, four times over, and the load. -/
def run (loop : Loop) (vm : Vm) : VmResult × Vm :=
  runLoop s loop (4 * (matchLimit - vm.steps) + load vm + 1) vm.steps vm

def passed (loop : Loop) : Nat → Vm → List Vm
  | 0, _ => []
  | fuel + 1, vm =>
    match turn s loop vm with
    | .running next => vm :: passed loop fuel next
    | .finished _ _ => [vm]

variable {s} {vm next : Vm} {loop : Loop} {fuel steps : Nat} {insn : Instruction}

/-! ## Enough fuel -/

theorem turn_effect (turned : turn s loop vm = .running next) :
    Effect s.platform s.program s.input vm next := by
  unfold turn at turned
  split at turned
  · rename_i fails
    exact step_failing_effect fails turned
  · rename_i runs
    have runs : vm.failing = none := by simpa using runs
    split at turned
    · cases turned
      exact fail_effect runs
    · rename_i insn found
      split at turned
      · exact step_fast_effect runs found turned
      · unfold stepOfGeneral at turned
        split at turned
        · split at turned
          · exact step_fast_effect runs found turned
          · exact step_general_effect runs found turned
        · exact step_general_effect runs found turned

theorem failing_le_one (vm : Vm) : (if vm.failing.isSome then 1 else 0) ≤ 1 := by
  split <;> omega

theorem load_turn (turned : turn s loop vm = .running next) :
    load next < load vm + if vm.failing.isSome then 0 else 4 := by
  have bit := failing_le_one next
  unfold load
  cases turn_effect turned with
  | goesOn runs quiet =>
    rw [quiet.stack, quiet.frames, runs]
    simp only [Option.isSome_none, Bool.false_eq_true, if_false]
    omega
  | saves runs saved _ quiet =>
    rw [quiet.stack, quiet.frames, runs, length_cons]
    simp only [Option.isSome_none, Bool.false_eq_true, if_false]
    omega
  | starts runs _ _ _ _ started =>
    rw [started] at bit ⊢
    simp only [startLook, runs, length_cons, Option.isSome_none, Bool.false_eq_true, if_false]
    omega
  | leaves _ frame frames stack =>
    have shorter : next.backtrackStack.length ≤ vm.backtrackStack.length := by
      rw [stack, truncate, length_drop]
      omega
    rw [frames, length_cons]
    cases vm.failing.isSome with
    | true =>
      simp only [if_true]
      omega
    | false =>
      simp only [Bool.false_eq_true, if_false]
      omega
  | resumes fails saved stack listed _ frames _ _ _ _ again =>
    rw [listed, frames, length_cons, if_pos fails, if_pos fails]
    rcases again with same | ⟨goes, again, pushed, -⟩
    · rw [same]
      omega
    · rw [pushed, goes, length_cons]
      simp

/-- Instructions pay for backtracking: with what is left to try at the start, four turns each. -/
theorem turns_paid_by_instructions (vm : Vm) :
    (passed s loop fuel vm).length ≤
      4 * (passed s loop fuel vm).countP (·.failing.isNone) + load vm + 1 := by
  induction fuel generalizing vm with
  | zero => exact Nat.zero_le _
  | succ _ induction =>
    unfold passed
    split
    · rename_i next turned
      have lower := load_turn turned
      have later := induction next
      rw [length_cons, countP_cons]
      cases failing : vm.failing <;> simp [failing] at lower ⊢ <;> omega
    · exact Nat.le_add_left ..

theorem run_loop_enough (enough : 4 * (matchLimit - steps) + load vm < fuel) :
    runLoop s loop (fuel + 1) steps vm = runLoop s loop fuel steps vm := by
  induction fuel generalizing steps vm with
  | zero => omega
  | succ fuel induction =>
    rw [runLoop, runLoop]
    split
    · rfl
    · rename_i within
      split
      · rename_i next turned
        have lower := load_turn turned
        apply induction
        cases failing : vm.failing with
        | none =>
          simp [failing] at within lower ⊢
          omega
        | some =>
          simp [failing] at lower ⊢
          omega
      · rfl

theorem run_loop_eq_run (enough : 4 * (matchLimit - vm.steps) + load vm < fuel) :
    runLoop s loop fuel vm.steps vm = run s loop vm := by
  induction fuel, enough using Nat.le_induction with
  | base => rfl
  | succ fuel enough induction => rw [run_loop_enough enough, induction]

/-! ## The same result -/

theorem run_eq (ends : (runLoop s loop fuel steps vm).1 ≠ .limitExceeded) :
    ∃ rest count, fuel = rest + 1 ∧ runLoop s loop fuel steps vm =
      goOn s loop rest count (turn s loop vm) := by
  cases fuel with
  | zero => exact absurd rfl ends
  | succ rest =>
    rw [runLoop] at ends ⊢
    split at ends
    · exact absurd rfl ends
    · rename_i within
      refine ⟨rest, if vm.failing.isSome then steps else steps + 1, rfl, ?_⟩
      rw [if_neg within]
      cases turn s loop vm with
      | running | finished => rfl

def Forward (vm : Vm) : Prop := vm.frames.getLast?.elim vm.backward LookFrame.backward = false

theorem forward_turn (forward : Forward vm) (turned : turn s loop vm = .running next) :
    Forward next := by
  unfold Forward at forward ⊢
  cases turn_effect turned with
  | goesOn _ quiet => rwa [quiet.frames, quiet.backward]
  | saves _ _ _ quiet => rwa [quiet.frames, quiet.backward]
  | starts _ _ _ _ _ started =>
    rw [started, startLook]
    cases outer : vm.frames with
    | nil => rwa [outer] at forward
    | cons frame rest =>
      rw [getLast?_cons_cons, ← outer]
      rwa [outer, getLast?_cons] at forward ⊢
  | leaves _ frame frames _ _ backward =>
    rw [frames] at forward
    cases outer : next.frames with
    | nil =>
      rw [outer] at forward
      exact backward.trans forward
    | cons first rest =>
      rw [outer, getLast?_cons_cons] at forward
      rwa [getLast?_cons] at forward ⊢
  | resumes _ _ _ _ _ frames _ backward => rwa [frames, backward]

/-- One by one the general loop executes what the fast loop fuses. -/
theorem run_fused {code : List Instruction} (runs : vm.failing = none) (outer : vm.frames = [])
    (forward : vm.backward = false) (here : s.program.instructions.drop vm.pc = code)
    (ends : (runLoop s .general fuel steps vm).1 ≠ .limitExceeded) :
    ∃ fuel' steps', runLoop s .general fuel steps vm =
      runLoop s .general fuel' steps' { vm with
        registers := (fuseSaves vm.pos code vm.registers vm.pc).1
        pc := (fuseSaves vm.pos code vm.registers vm.pc).2 } := by
  induction code generalizing vm fuel steps with
  | nil => exact ⟨fuel, steps, rfl⟩
  | cons insn rest induction =>
    have found : s.program.instructions[vm.pc]? = some insn := by
      rw [← head?_drop, here, head?_cons]
    have behind : s.program.instructions.drop (vm.pc + 1) = rest := by
      rw [← tail_drop, here, tail_cons]
    have executes (registers : List Int)
        (step : stepOfGeneral s vm insn = .running { vm with registers, pc := vm.pc + 1 }) :
        ∃ fuel' steps', runLoop s .general fuel steps vm =
          runLoop s .general fuel' steps' { vm with
            registers := (fuseSaves vm.pos rest registers (vm.pc + 1)).1
            pc := (fuseSaves vm.pos rest registers (vm.pc + 1)).2 } := by
      have turned : turn s .general vm = .running { vm with registers, pc := vm.pc + 1 } := by
        simp [turn, runsFast, runs, found, outer, step]
      obtain ⟨_, _, -, same⟩ := run_eq ends
      rw [same, turned] at ends ⊢
      exact induction runs outer forward behind ends
    cases insn with
    | save reg =>
      exact executes _ (by
        simp [stepOfGeneral, stepGeneral, generalTest, saveRegister, forward])
    | clearRegister reg => exact executes _ rfl
    | _ => exact ⟨fuel, steps, rfl⟩

section
variable (legacy : s.program.unicode = false) (sets : s.program.unicodeSets = false)

include legacy sets

theorem general_test_eq {modifiers : ActiveModifiers} :
    generalTest s.platform s.program modifiers insn = fastTest s.platform modifiers insn := by
  cases insn with
  | char | charNoCase | anyChar | charClass | builtinClass | unicodeProperty =>
    simp [generalTest, fastTest, matchSimple, matchSimpleWithModifiers, legacy, sets]
  | _ => rfl

omit sets in
theorem consume_one_eq (forward : vm.backward = false) {test : Nat → Bool} :
    vm.consumeOne s.program s.input test = vm.consumeOneFast s.input test := by
  simp only [consumeOne, consumeOneFast, currentCodePoint, advanceChar, advanceOneChar,
    legacy, forward]
  obtain inside | outside := Nat.lt_or_ge vm.pos s.input.length
  · simp [inside, Nat.not_le.mpr inside]
  · simp [outside, Nat.not_lt.mpr outside]

theorem step_of_general_eq (forward : vm.backward = false) (save : ∀ reg, insn ≠ .save reg)
    (clear : ∀ reg, insn ≠ .clearRegister reg) :
    stepOfGeneral s vm insn = vm.stepFast s.platform s.program s.input insn := by
  cases insn with
  | greedyLoop => simp [stepOfGeneral, legacy, forward]
  | save reg => exact absurd rfl (save reg)
  | clearRegister reg => exact absurd rfl (clear reg)
  | _ =>
    simp [stepOfGeneral, stepGeneral, stepFast, general_test_eq legacy sets, legacy, forward,
      consume_one_eq legacy forward]

theorem turn_cases (forward : Forward vm) : turn s .general vm = turn s .fast vm ∨
    vm.failing = none ∧ vm.frames = [] ∧ vm.backward = false ∧
      turn s .fast vm = .running (vm.saveFused s.program) := by
  by_cases runs : vm.failing = none
  case neg => exact .inl (by simp [turn, Option.ne_none_iff_isSome.mp runs])
  by_cases outer : vm.frames = []
  case neg => exact .inl (by simp [turn, runsFast, outer])
  have forward : vm.backward = false := by rwa [Forward, outer] at forward
  cases found : s.program.instructions[vm.pc]? with
  | none => exact .inl (by simp [turn, found])
  | some insn =>
    have fast : turn s .fast vm = vm.stepFast s.platform s.program s.input insn := by
      simp [turn, runsFast, runs, found, outer]
    have general : turn s .general vm = stepOfGeneral s vm insn := by
      simp [turn, runsFast, runs, found, outer]
    cases insn with
    | save | clearRegister => exact .inr ⟨runs, outer, forward, fast⟩
    | _ =>
      left
      rw [fast, general]
      exact step_of_general_eq legacy sets forward (by simp) (by simp)

end

theorem run_loops_agree (legacy : s.program.unicode = false)
    (sets : s.program.unicodeSets = false) (vm : Vm) (level : Forward vm)
    (fuel steps fuel' steps' : Nat)
    (fastEnds : (runLoop s .fast fuel steps vm).1 ≠ .limitExceeded)
    (generalEnds : (runLoop s .general fuel' steps' vm).1 ≠ .limitExceeded) :
    runLoop s .general fuel' steps' vm = runLoop s .fast fuel steps vm := by
  induction fuel generalizing vm steps fuel' steps' with
  | zero => exact absurd rfl fastEnds
  | succ fuel induction =>
    obtain ⟨_, _, ⟨⟩, fast⟩ := run_eq fastEnds
    rw [fast] at fastEnds ⊢
    obtain same | ⟨runs, outer, forward, fused⟩ := turn_cases legacy sets level
    · obtain ⟨_, _, -, general⟩ := run_eq generalEnds
      rw [general, same] at generalEnds ⊢
      cases turned : turn s .fast vm with
      | running next =>
        rw [turned] at fastEnds generalEnds
        exact induction next (forward_turn level turned) _ _ _ fastEnds generalEnds
      | finished => rfl
    · obtain ⟨_, _, general⟩ := run_fused runs outer forward rfl generalEnds
      rw [general] at generalEnds ⊢
      rw [fused] at fastEnds ⊢
      exact induction (vm.saveFused s.program) level _ _ _ fastEnds generalEnds

theorem fast_loop_refines_general (s : Setting) (vm : Vm) (legacy : s.program.unicode = false)
    (sets : s.program.unicodeSets = false) (outer : vm.frames = [])
    (forward : vm.backward = false) :
    (∀ loop fuel, 4 * (matchLimit - vm.steps) + load vm < fuel →
      runLoop s loop fuel vm.steps vm = run s loop vm) ∧
    ((run s .fast vm).1 ≠ .limitExceeded → (run s .general vm).1 ≠ .limitExceeded →
      run s .general vm = run s .fast vm) :=
  ⟨fun _ _ => run_loop_eq_run,
    run_loops_agree legacy sets vm (by rwa [Forward, outer]) _ _ _ _⟩

/-- `(?<=(a))b`, with the registers of the lookbehind filled from right to left. -/
def lookbehindProgram : Program where
  instructions := [.save 0, .lookStart true false 6, .save 2, .char 0x61, .save 3, .lookEnd,
    .char 0x62, .save 1, .accept]
  captureCount := 1
  registerCount := 4
  unicode := false
  unicodeSets := false
  ignoreCase := false
  multiline := false
  dotAll := false
  namedGroups := []

theorem lookbehind_loops_agree :
    let s : Setting := ⟨asciiPlatform, lookbehindProgram, [0x61, 0x62]⟩
    let vm := Vm.new lookbehindProgram 1
    (run s .fast vm).1 = .matched ∧ run s .general vm = run s .fast vm :=
  ⟨by decide, (fast_loop_refines_general _ _ rfl rfl rfl rfl).2 (by decide) (by decide)⟩

/-- With `unicode_sets` but not `unicode`, which the compiler never sets up, only the general loop
looks at the case closure of U+017F. -/
theorem unicode_sets_split_loops :
    let closure codePoint := if codePoint = 0x17F then [0x53, 0x73, 0x17F] else [codePoint]
    let program : Program :=
      { lookbehindProgram with
        instructions := [.charClass [⟨0x73, 0x73⟩] false, .accept]
        unicodeSets := true
        ignoreCase := true }
    let s : Setting := ⟨{ asciiPlatform with caseClosure := closure }, program, [0x17F]⟩
    program.unicode = false ∧ (run s .fast (new program 0)).1 = .noMatch ∧
      (run s .general (new program 0)).1 = .matched := by
  decide

end Ladybone.Regex.Loops
