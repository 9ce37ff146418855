import Ladybone.Regex.Effects
import Ladybone.Regex.Scopes

/-!
# The register pool

The source keeps the snapshots of saved states and of lookarounds in one flat pool, and a saved
state has the offset of its snapshot there. `Pooled` is the machine with that pool. Its saved
states and frames still say which registers they were made with, but a step restores what it reads
in the pool.
-/

namespace Ladybone.Regex.Pool

open Regex.Syntax Regex.Compile Regex.Machine Regex.Nesting Regex.Scopes Regex.Effects
  Support.Runs List

def withRegisters (registers : List Int) : SavedState → SavedState
  | .normal pc pos _ modifiers length => .normal pc pos registers modifiers length
  | .greedy pc startPos currentPos _ min backward modifiers length =>
    .greedy pc startPos currentPos registers min backward modifiers length
  | .lazy pc pos _ max consumed modifiers length =>
    .lazy pc pos registers max consumed modifiers length

structure Pooled where
  vm : Vm
  /-- `reg_snapshot_offset` of the saved states, the last one first. -/
  offsets : List Nat
  /-- `reg_save_offset` of the lookarounds whose bodies run, the innermost first. -/
  lookOffsets : List Nat
  registerPool : List Int

namespace Pooled

def new (program : Program) (startPos : Nat) : Pooled := ⟨Vm.new program startPos, [], [], []⟩

variable (pooled : Pooled)

def snapshot (offset : Nat) : List Int :=
  (pooled.registerPool.drop offset).take pooled.vm.registers.length

def reading : Vm :=
  { pooled.vm with
    backtrackStack := zipWith (fun saved offset => withRegisters (pooled.snapshot offset) saved)
      pooled.vm.backtrackStack pooled.offsets
    frames := zipWith (fun frame offset => { frame with registers := pooled.snapshot offset })
      pooled.vm.frames pooled.lookOffsets }

def pushSnapshot (next : Vm) : Pooled :=
  let pushed := next.backtrackStack.take (next.backtrackStack.length - pooled.offsets.length)
  { pooled with
    vm := next
    offsets := pushed.map (fun _ => pooled.registerPool.length) ++ pooled.offsets
    registerPool := pooled.registerPool ++ pushed.flatMap registersOf }

def settle (next : Vm) : Pooled :=
  if next.frames.length < pooled.vm.frames.length then
    -- the body of a lookaround has ended
    { vm := next
      offsets := truncate pooled.offsets next.backtrackStack.length
      lookOffsets := pooled.lookOffsets.tail
      registerPool := pooled.registerPool.take (pooled.lookOffsets.headD 0) }
  else if pooled.vm.frames.length < next.frames.length then
    { vm := next
      offsets := pooled.offsets
      lookOffsets := pooled.registerPool.length :: pooled.lookOffsets
      registerPool := pooled.registerPool ++ pooled.vm.registers }
  else if pooled.vm.failing.isSome then
    -- `backtrack` has popped a saved state, and may have pushed it again
    pushSnapshot
      { pooled with
        offsets := pooled.offsets.tail
        registerPool := pooled.registerPool.take (pooled.offsets.headD 0) } next
  else pooled.pushSnapshot next

def advance (platform : Platform) (program : Program) (input : Input) (pooled : Pooled)
    (_ : Unit) : Option Pooled :=
  (Vm.advance platform program input pooled.reading ()).map pooled.settle

end Pooled

def MadeBy (past : Vm → Prop) (stack : List SavedState) (makes : Vm → Prop) : Prop :=
  ∃ state, past state ∧ state.backtrackStack = stack ∧ makes state

def Enters (program : Program) (frame : LookFrame) (vm : Vm) : Prop :=
  (∃ forward, program.instructions[vm.pc]? =
      some (.lookStart frame.positive forward frame.finish)) ∧
    frame.pos = vm.pos ∧ frame.registers = vm.registers ∧
    frame.backtrackLength = vm.backtrackStack.length

/-- How the pool is built up under `floor`: each saved state and each lookaround has added its
snapshot at the end, in a state of the past. -/
inductive Laid (program : Program) (past : Vm → Prop) (count : Nat) :
    List SavedState → List Nat → List LookFrame → List Nat → Nat → List Int → Prop where
  | empty : Laid program past count [] [] [] [] 0 []
  | saved {stack offsets frames looks floor pool} (saved : SavedState) :
      Laid program past count stack offsets frames looks floor pool →
        MadeBy past stack (Saves program · saved) → (registersOf saved).length = count →
          Laid program past count (saved :: stack) (pool.length :: offsets) frames looks floor
            (pool ++ registersOf saved)
  | look {stack offsets frames looks floor pool} (frame : LookFrame) :
      Laid program past count stack offsets frames looks floor pool →
        MadeBy past stack (Enters program frame) → frame.registers.length = count →
          frame.btFloor = floor →
            Laid program past count stack offsets (frame :: frames) (pool.length :: looks)
              stack.length (pool ++ frame.registers)

/-- A snapshot that lies in the pool. -/
def Held (count : Nat) (pool registers : List Int) (offset : Nat) : Prop :=
  offset + count ≤ pool.length ∧ (pool.drop offset).take count = registers

variable {count floor offset : Nat} {stack : List SavedState} {frames : List LookFrame}
  {offsets looks : List Nat} {pool registers more : List Int} {prog : Program}
  {past later : Vm → Prop}

theorem Held.append (held : Held count pool registers offset) :
    Held count (pool ++ more) registers offset := by
  obtain ⟨inside, read⟩ := held
  refine ⟨by grind, ?_⟩
  rw [drop_append_of_le_length (by omega), take_append_of_le_length (by grind), read]

theorem held_last (sized : registers.length = count) :
    Held count (pool ++ registers) registers pool.length := by
  subst sized
  simp [Held]

theorem Laid.mono (passed : ∀ vm, past vm → later vm)
    (laid : Laid prog past count stack offsets frames looks floor pool) :
    Laid prog later count stack offsets frames looks floor pool := by
  induction laid with
  | empty => exact .empty
  | saved saved _ made sized ih =>
    obtain ⟨state, before, same, makes⟩ := made
    exact .saved saved ih ⟨state, passed state before, same, makes⟩ sized
  | look frame _ made sized outer ih =>
    obtain ⟨state, before, same, makes⟩ := made
    exact .look frame ih ⟨state, passed state before, same, makes⟩ sized outer

theorem Laid.held (laid : Laid prog past count stack offsets frames looks floor pool) :
    Forall₂ (fun saved offset => (∃ state, past state ∧ Saves prog state saved) ∧
        Held count pool (registersOf saved) offset) stack offsets ∧
      Forall₂ (fun frame offset => (∃ state, past state ∧ Enters prog frame state) ∧
        Held count pool frame.registers offset) frames looks := by
  induction laid with
  | empty => exact ⟨.nil, .nil⟩
  | saved _ _ made sized ih =>
    obtain ⟨state, before, -, makes⟩ := made
    exact ⟨.cons ⟨⟨state, before, makes⟩, held_last sized⟩
        (ih.1.imp fun _ _ => And.imp_right Held.append),
      ih.2.imp fun _ _ => And.imp_right Held.append⟩
  | look _ _ made sized _ ih =>
    obtain ⟨state, before, -, makes⟩ := made
    exact ⟨ih.1.imp fun _ _ => And.imp_right Held.append,
      .cons ⟨⟨state, before, makes⟩, held_last sized⟩
        (ih.2.imp fun _ _ => And.imp_right Held.append)⟩

theorem Laid.apart (laid : Laid prog past count stack offsets frames looks floor pool) :
    (offsets.Pairwise fun later earlier => earlier + count ≤ later) ∧
      ∀ offset ∈ offsets, offset + count ≤ pool.length := by
  induction laid with
  | empty => simp
  | saved _ _ _ sized ih =>
    refine ⟨pairwise_cons.mpr ⟨ih.2, ih.1⟩, forall_mem_cons.mpr ⟨by simp [sized], ?_⟩⟩
    exact fun offset member => (ih.2 offset member).trans (by simp)
  | look _ _ _ _ _ ih =>
    exact ⟨ih.1, fun offset member => (ih.2 offset member).trans (by simp)⟩

theorem with_registers_of (saved : SavedState) :
    withRegisters (registersOf saved) saved = saved := by
  cases saved <;> rfl

theorem zip_with_eq_left {α β : Type} {left : List α} {right : List β} {combine : α → β → α}
    (same : Forall₂ (fun item other => combine item other = item) left right) :
    zipWith combine left right = left := by
  induction same with
  | nil => rfl
  | cons first _ ih => rw [zipWith_cons_cons, first, ih]

/-- The pool of a machine with `count` registers. -/
structure Pools (program : Program) (past : Vm → Prop) (count : Nat) (pooled : Pooled) : Prop where
  sized : pooled.vm.registers.length = count
  laid : Laid program past count pooled.vm.backtrackStack pooled.offsets pooled.vm.frames
    pooled.lookOffsets pooled.vm.btFloor pooled.registerPool

variable {pooled : Pooled} {vm next : Vm}

theorem Pools.reading_eq (pools : Pools prog past count pooled) : pooled.reading = pooled.vm := by
  obtain ⟨savedHeld, framesHeld⟩ := pools.laid.held
  unfold Pooled.reading Pooled.snapshot
  rw [pools.sized, zip_with_eq_left (savedHeld.imp fun saved _ held => ?_),
    zip_with_eq_left (framesHeld.imp fun frame _ held => ?_)]
  · rw [held.2.2]
  · rw [held.2.2, with_registers_of]

variable {host : Platform} {input : Input}

theorem truncate_cons {α : Type} {items : List α} {kept : Nat} (inside : kept ≤ items.length)
    (item : α) : truncate (item :: items) kept = truncate items kept := by
  rw [truncate, length_cons, Nat.succ_sub inside, drop_succ_cons, truncate]

theorem Laid.pop {saved : SavedState}
    (laid : Laid prog past count (saved :: stack) offsets frames looks floor pool)
    (above : floor ≤ stack.length) :
    (MadeBy past stack (Saves prog · saved) ∧ (registersOf saved).length = count) ∧
      Laid prog past count stack offsets.tail frames looks floor
        (pool.take (offsets.headD 0)) := by
  cases laid with
  | saved _ laid made sized => exact ⟨⟨made, sized⟩, by rwa [headD_cons, take_left]⟩
  | look => exact absurd above (Nat.not_succ_le_self _)

theorem Laid.leave {frame : LookFrame}
    (laid : Laid prog past count stack offsets (frame :: frames) looks floor pool) :
    (MadeBy past (truncate stack frame.backtrackLength) (Enters prog frame) ∧
      frame.registers.length = count) ∧ frame.backtrackLength ≤ stack.length ∧
      looks.headD 0 ≤ pool.length ∧
      Laid prog past count (truncate stack frame.backtrackLength)
        (truncate offsets frame.backtrackLength) frames looks.tail frame.btFloor
        (pool.take (looks.headD 0)) := by
  generalize all : frame :: frames = nested at laid
  induction laid with
  | empty => cases all
  | saved saved laid made sized ih =>
    obtain ⟨entered, below, inside, outer⟩ := ih all
    have same := laid.held.1.length_eq
    rw [truncate_cons below, truncate_cons (same ▸ below), take_append_of_le_length inside]
    exact ⟨entered, by grind, by grind, outer⟩
  | look frame laid made sized outer =>
    cases all
    have same := laid.held.1.length_eq
    obtain ⟨state, before, isStack, enters⟩ := made
    have below : frame.backtrackLength = _ := enters.2.2.2
    rw [isStack] at below
    rw [below, truncate, truncate, Nat.sub_self, ← same, Nat.sub_self, headD_cons, take_left, outer]
    exact ⟨⟨⟨state, before, isStack, enters⟩, sized⟩, Nat.le_refl _, by grind, laid⟩

theorem pools_push_snapshot (sized : next.registers.length = count)
    (laid : Laid prog past count stack pooled.offsets next.frames pooled.lookOffsets next.btFloor
      pooled.registerPool)
    (pushed : next.backtrackStack = stack ∨ ∃ saved, next.backtrackStack = saved :: stack ∧
      MadeBy past stack (Saves prog · saved) ∧ (registersOf saved).length = count) :
    Pools prog past count (pooled.pushSnapshot next) := by
  have same := laid.held.1.length_eq
  refine ⟨sized, ?_⟩
  rcases pushed with isSame | ⟨saved, isPushed, made, savedSized⟩
  · simpa [Pooled.pushSnapshot, isSame, same] using laid
  · simpa [Pooled.pushSnapshot, isPushed, same] using laid.saved saved made savedSized

theorem Pools.settle (pools : Pools prog past count pooled)
    (effect : Effect host prog input pooled.vm next) (here : past pooled.vm) :
    Pools prog past count (pooled.settle next) := by
  obtain ⟨sized, laid⟩ := pools
  unfold Pooled.settle
  cases effect with
  | goesOn runs quiet _ =>
    rw [quiet.frames, if_neg (Nat.lt_irrefl _), if_neg (Nat.lt_irrefl _), runs]
    exact pools_push_snapshot (quiet.sized.trans sized) (quiet.frames ▸ quiet.floor ▸ laid)
      (.inl quiet.stack)
  | saves runs saved made quiet =>
    rw [quiet.frames, if_neg (Nat.lt_irrefl _), if_neg (Nat.lt_irrefl _), runs]
    refine pools_push_snapshot (quiet.sized.trans sized) (quiet.frames ▸ quiet.floor ▸ laid) ?_
    exact .inr ⟨saved, quiet.stack, ⟨pooled.vm, here, rfl, made⟩, made.sized.trans sized⟩
  | starts runs positive forward finish found started =>
    rw [started, if_neg (by simp [Vm.startLook]), if_pos (by simp [Vm.startLook])]
    refine ⟨sized, ?_⟩
    exact laid.look _ ⟨pooled.vm, here, rfl, ⟨forward, found⟩, rfl, rfl, rfl⟩ sized rfl
  | leaves _ frame frames stack floor _ _ registers =>
    rw [frames] at laid
    obtain ⟨⟨-, frameSized⟩, below, -, outside⟩ := laid.leave
    have kept : next.registers.length = count := by
      rcases registers with same | ⟨-, -, same⟩ <;> rwa [same]
    have length : next.backtrackStack.length = frame.backtrackLength := by
      rw [stack, truncate, length_drop, Nat.sub_sub_self below]
    rw [frames, length_cons, if_pos (Nat.lt_succ_self _), length]
    exact ⟨kept, stack ▸ floor ▸ outside⟩
  | resumes fails saved stack listed above frames floor _ restored _ again =>
    rw [listed] at laid
    obtain ⟨⟨⟨state, before, isStack, made⟩, savedSized⟩, outside⟩ := laid.pop above
    rw [frames, if_neg (Nat.lt_irrefl _), if_neg (Nat.lt_irrefl _), if_pos fails]
    refine pools_push_snapshot (restored.1 ▸ savedSized) (frames ▸ floor ▸ outside) ?_
    rcases again with same | ⟨-, again, pushed, same, -, kept⟩
    · exact .inl same
    · exact .inr ⟨again, pushed, ⟨state, before, isStack, kept state made⟩, same ▸ savedSized⟩

theorem settle_vm : (pooled.settle next).vm = next := by
  unfold Pooled.settle
  split_ifs <;> rfl

section
variable (platform : Platform) (program : Program) (input : Input) (start : Nat)

def Passed (current state : Vm) : Prop :=
  Execution (Vm.advance platform program input) Unrestricted (Vm.new program start) state ∧
    Execution (Vm.advance platform program input) Unrestricted state current

variable {platform program input start}

theorem pools_of_run (run : Execution (Pooled.advance platform program input) Unrestricted
      (Pooled.new program start) pooled) :
    Pools program (Passed platform program input start pooled.vm) program.registerCount pooled ∧
      Execution (Vm.advance platform program input) Unrestricted (Vm.new program start)
        pooled.vm := by
  induction run with
  | refl => exact ⟨⟨length_replicate, .empty⟩, .refl⟩
  | tail _ _ _ stepped ih =>
    obtain ⟨pools, reached⟩ := ih
    obtain ⟨next, advanced, rfl⟩ := Option.map_eq_some_iff.mp stepped
    rw [pools.reading_eq] at advanced
    have settled := pools.settle (advance_effect advanced) ⟨reached, .refl⟩
    rw [settle_vm]
    refine ⟨⟨settled.sized, settled.laid.mono fun state passed => ?_⟩,
      reached.tail () trivial advanced⟩
    exact ⟨passed.1, passed.2.tail () trivial advanced⟩

end

/-- `(?=(b))|`, whose lookahead sets a register before it fails on `a`. -/
def lookaheadProgram : Program where
  instructions := [.split 1 6, .lookStart true true 5, .save 2, .char 0x62, .lookEnd, .accept,
    .accept]
  captureCount := 1
  registerCount := 4
  unicode := false
  unicodeSets := false
  ignoreCase := false
  multiline := false
  dotAll := false
  namedGroups := []

end Ladybone.Regex.Pool
