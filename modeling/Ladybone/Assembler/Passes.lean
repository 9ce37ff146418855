import Ladybone.Assembler.Assemble

/-!
# The passes over single blocks

Renaming operands, removing the unused load and merging moves leave the blocks where they are.
Each pass relates the instructions still to run; the machines over related blocks simulate each
other.
-/

namespace Ladybone.Assembler

open Support.Simulation List Function Instruction

/-! ## Renamed operands -/

section
variable {Op ι κ Value World Effect : Type} [DecidableEq ι] [DecidableEq κ]
  (sem : Semantics Op Value World Effect) (frame : Frame ι) {visible : ι → Prop} {rename : ι → κ}

def Agree (visible : ι → Prop) (rename : ι → κ) (values : ι → Value) (renamed : κ → Value) : Prop :=
  ∀ operand, visible operand → values operand = renamed (rename operand)

variable {vals : ι → Value} {renamed : κ → Value} (injective : Function.Injective rename)
  (agree : Agree visible rename vals renamed)

section

include agree

include injective in
theorem Agree.update (operand : ι) (val : Value) :
    Agree visible rename (Function.update vals operand val)
      (Function.update renamed (rename operand) val) := by
  intro other isVisible
  by_cases same : other = operand
  · subst same
    rw [update_self, update_self]
  · rw [update_of_ne same, update_of_ne (injective.ne same)]
    exact agree other isVisible

omit [DecidableEq κ] in
theorem Agree.update_hidden {operand : ι} (hidden : ¬ visible operand) {val : Value} :
    Agree visible rename (Function.update vals operand val) renamed := by
  intro other isVisible
  have different : other ≠ operand := fun same => hidden (same ▸ isVisible)
  rw [update_of_ne different]
  exact agree other isVisible

include injective in
theorem Agree.move (dst : ι) {src : ι} (isVisible : visible src) :
    Agree visible rename (Assembler.move vals dst src)
      (Assembler.move renamed (rename dst) (rename src)) := by
  unfold Assembler.move
  rw [← agree src isVisible]
  exact agree.update injective dst (vals src)

include injective in
theorem Agree.write_all {places : List ι} (written : List Value) :
    Agree visible rename (writeAll vals places written)
      (writeAll renamed (places.map rename) written) := by
  induction places generalizing vals renamed written with
  | nil => simpa [writeAll] using agree
  | cons place _ ih =>
    cases written with
    | nil => simpa [writeAll] using agree
    | cons val written => exact ih (agree.update injective place val) written

omit [DecidableEq ι] [DecidableEq κ] in
theorem Agree.map_values {places : List ι} (allVisible : ∀ place ∈ places, visible place) :
    (places.map rename).map renamed = places.map vals := by
  rw [map_map]
  exact map_congr_left fun place mem => (agree place (allVisible place mem)).symm

structure Executed.Renamed (visible : ι → Prop) (rename : ι → κ)
    (done : Executed ι Value World Effect) (other : Executed κ Value World Effect) : Prop where
  effects : other.effects = done.effects
  world : other.world = done.world
  control : other.control = done.control
  agree : Agree visible rename done.values other.values

include injective in
theorem execute_renamed (placesVisible : ∀ reg, visible (frame.place reg)) (insn : Instruction Op ι)
    (allVisible : ∀ operand ∈ insn.operands, visible operand) (world : World) :
    Executed.Renamed visible rename (execute sem frame.place insn vals world)
      (execute sem (rename ∘ frame.place) (insn.mapOperands rename) renamed world) := by
  cases insn with
  | mov dst =>
    simp only [operands, forall_mem_cons] at allVisible
    exact ⟨rfl, rfl, rfl, agree.move injective dst allVisible.2.1⟩
  | mov2 dst₁ _ dst₂ =>
    simp only [operands, forall_mem_cons] at allVisible
    obtain ⟨-, first, -, second, -⟩ := allVisible
    exact ⟨rfl, rfl, rfl, (agree.move injective dst₁ first).move injective dst₂ second⟩
  | mov3 dst₁ _ dst₂ _ dst₃ =>
    simp only [operands, forall_mem_cons] at allVisible
    obtain ⟨-, first, -, second, -, third, -⟩ := allVisible
    exact ⟨rfl, rfl, rfl,
      ((agree.move injective dst₁ first).move injective dst₂ second).move injective dst₃ third⟩
  | jump => exact ⟨rfl, rfl, rfl, agree⟩
  | jumpIf cond | jumpTrue cond | jumpFalse cond =>
    have same := agree cond (allVisible cond (by simp [operands]))
    exact ⟨rfl, rfl, by simp only [execute, mapOperands, same], agree⟩
  | «return» val | «end» val =>
    have same := agree val (allVisible val (by simp [operands]))
    exact ⟨rfl, rfl, by simp only [execute, mapOperands, same], agree⟩
  | getLexicalEnvironment dst => exact ⟨rfl, rfl, rfl, agree.update injective dst _⟩
  | other op operands =>
    have placesSeen : ∀ place ∈ operands ++ (sem.reserved op).map frame.place, visible place := by
      refine forall_mem_append.mpr ⟨allVisible, forall_mem_map.mpr fun reg _ => ?_⟩
      exact placesVisible reg
    have renamedPlaces : operands.map rename ++ (sem.reserved op).map (rename ∘ frame.place)
        = (operands ++ (sem.reserved op).map frame.place).map rename := by
      rw [map_append, map_map]
    have sameArguments := agree.map_values placesSeen
    simp only [execute, mapOperands, renamedPlaces, sameArguments]
    exact ⟨rfl, rfl, rfl, agree.write_all injective _⟩

end

/-! ## Blocks that match -/

section
variable (rests : List (Instruction Op ι) → List (Instruction Op κ) → Prop)

structure Block.Matched (block : Block Op ι) (other : Block Op κ) : Prop where
  instructions : rests block.instructions other.instructions
  handler : other.handler = block.handler
  terminated : other.terminated = block.terminated

structure Config.Matched (visible : ι → Prop) (rename : ι → κ) (config : Config Op ι Value World)
    (other : Config Op κ Value World) : Prop where
  block : other.block = config.block
  rest : rests config.rest other.rest
  agree : Agree visible rename config.values other.values
  world : other.world = config.world

structure Result.Renamed (visible : ι → Prop) (rename : ι → κ) (result : Result ι Value World)
    (other : Result κ Value World) : Prop where
  exit : other.exit = result.exit
  agree : Agree visible rename result.values other.values
  world : other.world = result.world

def Frame.map (rename : ι → κ) (frame : Frame ι) : Frame κ :=
  ⟨rename ∘ frame.place, frame.undefined.map rename⟩

def BlocksMatch (blocks : List (Block Op ι)) (others : List (Block Op κ)) : Prop :=
  ∀ label : Nat, Option.Rel (Block.Matched rests) blocks[label]? others[label]?

variable {rests} {blocks : List (Block Op ι)} {others : List (Block Op κ)}
  (blocksMatch : BlocksMatch rests blocks others) {world : World} {effects : List Effect}

include blocksMatch

section

include agree

omit [DecidableEq ι] [DecidableEq κ] in
theorem enter_alike {label : Nat} :
    Alike (Config.Matched rests visible rename) (Result.Renamed visible rename)
      (enter blocks effects label vals world) (enter others effects label renamed world) := by
  have related := blocksMatch label
  unfold enter
  cases first : blocks[label]? <;> cases second : others[label]? <;> rw [first, second] at related
    <;> cases related
  case none.none => exact .stuck
  case some.some block other matched => exact .step ⟨rfl, matched.instructions, agree, rfl⟩

omit [DecidableEq ι] [DecidableEq κ] in
theorem leave_alike (undefinedVisible : ∀ constant ∈ frame.undefined, visible constant)
    {idx : Nat} :
    Alike (Config.Matched rests visible rename) (Result.Renamed visible rename)
      (leave frame blocks idx vals world : BlockNext Op ι Value World Effect)
      (leave (frame.map rename) others idx renamed world) := by
  have related := blocksMatch idx
  unfold leave
  cases first : blocks[idx]? <;> cases second : others[idx]? <;> rw [first, second] at related
    <;> cases related
  case none.none => exact .stuck
  case some.some block other matched =>
    dsimp only
    rw [matched.terminated]
    split
    · exact enter_alike agree blocksMatch
    · cases constant : frame.undefined with
      | none =>
        simp only [Frame.map, constant]
        exact .stuck
      | some operand =>
        simp only [Frame.map, constant]
        have same := agree operand (undefinedVisible operand constant)
        exact .halt ⟨by rw [same], agree, rfl⟩

include injective in
theorem throw_from_alike {idx : Nat} {val : Value} :
    Alike (Config.Matched rests visible rename) (Result.Renamed visible rename)
      (throwFrom frame blocks effects idx vals world val)
      (throwFrom (frame.map rename) others effects idx renamed world val) := by
  have sameHandler : others[idx]?.bind Block.handler = blocks[idx]?.bind Block.handler := by
    have related := blocksMatch idx
    cases first : blocks[idx]? <;> cases second : others[idx]? <;>
      rw [first, second] at related <;> cases related
    case none.none => rfl
    case some.some block other matched => exact matched.handler
  have updated := agree.update injective (frame.place .exception) val
  unfold throwFrom
  rw [sameHandler]
  cases blocks[idx]?.bind Block.handler with
  | some label => exact enter_alike updated blocksMatch
  | none => exact .halt ⟨rfl, updated, rfl⟩

end

include injective in
theorem proceed_alike {done : Executed ι Value World Effect} {other : Executed κ Value World Effect}
    (executed : done.Renamed visible rename other) (idx : Nat)
    {rest : List (Instruction Op ι)} {otherRest : List (Instruction Op κ)}
    (follows : rests rest otherRest) :
    Alike (Config.Matched rests visible rename) (Result.Renamed visible rename)
      (proceed frame blocks idx rest done)
      (proceed (frame.map rename) others idx otherRest other) := by
  unfold proceed
  rw [executed.control, executed.effects, executed.world]
  cases done.control with
  | next => exact .step ⟨rfl, follows, executed.agree, rfl⟩
  | goto label => exact enter_alike executed.agree blocksMatch
  | throw val => exact throw_from_alike frame injective executed.agree blocksMatch
  | exit => exact .halt ⟨rfl, executed.agree, rfl⟩
  | stuck => exact .stuck

end

/-! ## The removed load -/

/-- A load whose destination is not visible may be missing in front of the renamed
instructions. -/
inductive Follows (visible : ι → Prop) (rename : ι → κ) :
    List (Instruction Op ι) → List (Instruction Op κ) → Prop
  | same {rest : List (Instruction Op ι)}
      (allVisible : ∀ instruction ∈ rest, ∀ operand ∈ instruction.operands, visible operand) :
      Follows visible rename rest (rest.map (Instruction.mapOperands rename))
  | load {rest : List (Instruction Op ι)} {dst : ι} (hidden : ¬ visible dst)
      (allVisible : ∀ instruction ∈ rest, ∀ operand ∈ instruction.operands, visible operand) :
      Follows visible rename (.getLexicalEnvironment dst :: rest)
        (rest.map (Instruction.mapOperands rename))

include injective in
theorem follows_simulates {blocks : List (Block Op ι)} {others : List (Block Op κ)}
    (blocksMatch : BlocksMatch (Follows visible rename) blocks others)
    (placesVisible : ∀ reg, visible (frame.place reg))
    (undefinedVisible : ∀ constant ∈ frame.undefined, visible constant) :
    Simulates (blockStep sem frame blocks) (blockStep sem (frame.map rename) others)
      (Config.Matched (Follows visible rename) visible rename) (Result.Renamed visible rename)
      (fun config => config.rest.length) := by
  rintro ⟨idx, rest, vals, world⟩ ⟨otherIndex, otherRest, renamed, otherWorld⟩
    ⟨rfl, follows, agree, rfl⟩
  dsimp only at follows agree
  cases follows with
  | same allVisible =>
    apply Alike.progress
    cases rest with
    | nil => exact leave_alike frame agree blocksMatch undefinedVisible
    | cons insn =>
      obtain ⟨operandsVisible, restVisible⟩ := forall_mem_cons.mp allVisible
      have executed := execute_renamed sem frame injective agree placesVisible
        insn operandsVisible otherWorld
      exact proceed_alike frame injective blocksMatch executed otherIndex (.same restVisible)
  | load hidden allVisible =>
    -- only the first machine moves, and only the hidden operand changes
    refine .silent (run_one rfl) ⟨rfl, .same allVisible, ?_, rfl⟩ (Nat.lt_succ_self _)
    exact agree.update_hidden hidden

end
end Ladybone.Assembler
