import Mathlib.Algebra.GroupWithZero.Nat
import Ladybone.Support.Simulation

/-!
# Basic blocks of bytecode

Instructions over any kind of operand: those the assembler rewrites, with the meaning the
interpreter gives them, and all others as opaque operations that read and write the values of
their operands and of the registers the interpreter reserves. A block is run one instruction at
a time; a label means the block with that index. The same instructions, with byte offsets for
labels, make up the assembled buffer.
-/

namespace Ladybone.Assembler

open Support.Simulation

inductive ReservedRegister where
  | accumulator
  | exception
  | thisValue
  | returnValue
deriving DecidableEq

inductive Instruction (Op ι : Type) where
  | mov (dst src : ι)
  | mov2 (dst₁ src₁ dst₂ src₂ : ι)
  | mov3 (dst₁ src₁ dst₂ src₂ dst₃ src₃ : ι)
  | jump (target : Nat)
  | jumpIf (condition : ι) (trueTarget falseTarget : Nat)
  | jumpTrue (condition : ι) (target : Nat)
  | jumpFalse (condition : ι) (target : Nat)
  | return (value : ι)
  | end (value : ι)
  | getLexicalEnvironment (dst : ι)
  | other (op : Op) (operands : List ι) (labels : List Nat)
deriving DecidableEq

namespace Instruction

variable {Op ι κ : Type}

def operands : Instruction Op ι → List ι
  | mov dst src => [dst, src]
  | mov2 dst₁ src₁ dst₂ src₂ => [dst₁, src₁, dst₂, src₂]
  | mov3 dst₁ src₁ dst₂ src₂ dst₃ src₃ => [dst₁, src₁, dst₂, src₂, dst₃, src₃]
  | jump _ => []
  | jumpIf condition _ _ => [condition]
  | jumpTrue condition _ => [condition]
  | jumpFalse condition _ => [condition]
  | .return value => [value]
  | .end value => [value]
  | getLexicalEnvironment dst => [dst]
  | other _ operands _ => operands

def mapOperands (rewrite : ι → κ) : Instruction Op ι → Instruction Op κ
  | mov dst src => mov (rewrite dst) (rewrite src)
  | mov2 dst₁ src₁ dst₂ src₂ => mov2 (rewrite dst₁) (rewrite src₁) (rewrite dst₂) (rewrite src₂)
  | mov3 dst₁ src₁ dst₂ src₂ dst₃ src₃ =>
    mov3 (rewrite dst₁) (rewrite src₁) (rewrite dst₂) (rewrite src₂) (rewrite dst₃) (rewrite src₃)
  | jump target => jump target
  | jumpIf condition trueTarget falseTarget => jumpIf (rewrite condition) trueTarget falseTarget
  | jumpTrue condition target => jumpTrue (rewrite condition) target
  | jumpFalse condition target => jumpFalse (rewrite condition) target
  | .return value => .return (rewrite value)
  | .end value => .end (rewrite value)
  | getLexicalEnvironment dst => getLexicalEnvironment (rewrite dst)
  | other op operands labels => other op (operands.map rewrite) labels

def labels : Instruction Op ι → List Nat
  | jump target => [target]
  | jumpIf _ trueTarget falseTarget => [trueTarget, falseTarget]
  | jumpTrue _ target => [target]
  | jumpFalse _ target => [target]
  | other _ _ labels => labels
  | _ => []

def mapLabels (patch : Nat → Nat) : Instruction Op ι → Instruction Op ι
  | jump target => jump (patch target)
  | jumpIf condition trueTarget falseTarget =>
    jumpIf condition (patch trueTarget) (patch falseTarget)
  | jumpTrue condition target => jumpTrue condition (patch target)
  | jumpFalse condition target => jumpFalse condition (patch target)
  | other op operands labels => other op operands (labels.map patch)
  | instruction => instruction

def isJump : Instruction Op ι → Bool
  | jump _ => true
  | jumpIf _ _ _ => true
  | _ => false

end Instruction

structure Block (Op ι : Type) where
  instructions : List (Instruction Op ι)
  handler : Option Nat
  terminated : Bool
deriving DecidableEq

/-- `emit` adds nothing behind a terminator, so a jump stands last in a terminated block. -/
def JumpsLast {Op ι : Type} (terminated : Bool) : List (Instruction Op ι) → Prop
  | [] => True
  | instruction :: rest =>
    (instruction.isJump = true → rest = [] ∧ terminated = true) ∧ JumpsLast terminated rest

def Block.labels {Op ι : Type} (block : Block Op ι) : List Nat :=
  block.instructions.flatMap Instruction.labels ++ block.handler.toList

/-- Blocks as the generator leaves them: labels name blocks, jumps stand last, and the constant
`undefined` is there when some block is not terminated. -/
structure Closed {Op ι : Type} (blocks : List (Block Op ι)) (undefined : Option ι) : Prop where
  jumpsLast : ∀ block ∈ blocks, JumpsLast block.terminated block.instructions
  labelled : ∀ block ∈ blocks, ∀ label ∈ block.labels, label < blocks.length
  undefinedExists : ∀ block ∈ blocks, block.terminated = false → undefined.isSome = true

/-! ## One instruction -/

/-- What an opaque operation decides: go on, take one of its labels, throw, or leave the
executable with a label to resume at. -/
inductive Outcome (Value : Type) where
  | next
  | take (label : Nat)
  | throw (value : Value)
  | yield (value : Value) (continuation : Option Nat)
deriving DecidableEq

structure Performed (Value World Effect : Type) where
  effects : List Effect
  values : List Value
  world : World
  outcome : Outcome Value

/-- The meaning of what the assembler does not look into. An operation gets the values of its
operands and of the reserved registers it uses, and gives their new values. -/
structure Semantics (Op Value World Effect : Type) where
  perform : Op → List Value → World → Performed Value World Effect
  reserved : Op → List ReservedRegister
  truthy : Value → Bool
  lexicalEnvironment : World → Value

inductive Exit (Value : Type) where
  | returned (value : Value)
  | ended (value : Value)
  | threw (value : Value)
  | yielded (value : Value) (continuation : Option Nat)
deriving DecidableEq

def Exit.mapLabel {Value : Type} (patch : Nat → Nat) : Exit Value → Exit Value
  | yielded value continuation => yielded value (continuation.map patch)
  | exit => exit

inductive Control (Value : Type) where
  | next
  | goto (label : Nat)
  | throw (value : Value)
  | exit (exit : Exit Value)
  | stuck
deriving DecidableEq

structure Executed (ι Value World Effect : Type) where
  effects : List Effect
  values : ι → Value
  world : World
  control : Control Value

section
variable {Op ι Value World Effect : Type} [DecidableEq ι]

def move (values : ι → Value) (dst src : ι) : ι → Value := Function.update values dst (values src)

def writeAll : (ι → Value) → List ι → List Value → ι → Value
  | values, place :: places, value :: rest =>
    writeAll (Function.update values place value) places rest
  | values, _, _ => values

def resolve (labels : List Nat) : Outcome Value → Control Value
  | .next => .next
  | .take label =>
    match labels[label]? with
    | some target => .goto target
    | none => .stuck
  | .throw value => .throw value
  | .yield value none => .exit (.yielded value none)
  | .yield value (some label) =>
    match labels[label]? with
    | some target => .exit (.yielded value (some target))
    | none => .stuck

def execute (semantics : Semantics Op Value World Effect) (place : ReservedRegister → ι) :
    Instruction Op ι → (ι → Value) → World → Executed ι Value World Effect
  | .mov dst src, values, world => ⟨[], move values dst src, world, .next⟩
  | .mov2 dst₁ src₁ dst₂ src₂, values, world =>
    ⟨[], move (move values dst₁ src₁) dst₂ src₂, world, .next⟩
  | .mov3 dst₁ src₁ dst₂ src₂ dst₃ src₃, values, world =>
    ⟨[], move (move (move values dst₁ src₁) dst₂ src₂) dst₃ src₃, world, .next⟩
  | .jump target, values, world => ⟨[], values, world, .goto target⟩
  | .jumpIf condition trueTarget falseTarget, values, world =>
    ⟨[], values, world,
      .goto (if semantics.truthy (values condition) then trueTarget else falseTarget)⟩
  | .jumpTrue condition target, values, world =>
    ⟨[], values, world, if semantics.truthy (values condition) then .goto target else .next⟩
  | .jumpFalse condition target, values, world =>
    ⟨[], values, world, if semantics.truthy (values condition) then .next else .goto target⟩
  | .return value, values, world => ⟨[], values, world, .exit (.returned (values value))⟩
  | .end value, values, world => ⟨[], values, world, .exit (.ended (values value))⟩
  | .getLexicalEnvironment dst, values, world =>
    ⟨[], Function.update values dst (semantics.lexicalEnvironment world), world, .next⟩
  | .other op operands labels, values, world =>
    let places := operands ++ (semantics.reserved op).map place
    let performed := semantics.perform op (places.map values) world
    ⟨performed.effects, writeAll values places performed.values, performed.world,
      resolve labels performed.outcome⟩

end

/-! ## Blocks, one instruction at a time -/

structure Frame (ι : Type) where
  place : ReservedRegister → ι
  undefined : Option ι

structure Config (Op ι Value World : Type) where
  block : Nat
  rest : List (Instruction Op ι)
  values : ι → Value
  world : World

structure Result (ι Value World : Type) where
  exit : Exit Value
  values : ι → Value
  world : World

section
variable {Op ι Value World Effect : Type} [DecidableEq ι]

abbrev BlockNext (Op ι Value World Effect : Type) :=
  Next (Config Op ι Value World) Effect (Result ι Value World)

def enter (blocks : List (Block Op ι)) (effects : List Effect) (label : Nat) (values : ι → Value)
    (world : World) : BlockNext Op ι Value World Effect :=
  match blocks[label]? with
  | some block => .step effects ⟨label, block.instructions, values, world⟩
  | none => .stuck

/-- Behind its last instruction a terminated block goes on with the next one; any other block
ends with `undefined`. -/
def leave (frame : Frame ι) (blocks : List (Block Op ι)) (block : Nat) (values : ι → Value)
    (world : World) : BlockNext Op ι Value World Effect :=
  match blocks[block]? with
  | none => .stuck
  | some left =>
    if left.terminated then enter blocks [] (block + 1) values world
    else
      match frame.undefined with
      | some constant => .halt [] ⟨.ended (values constant), values, world⟩
      | none => .stuck

def throwFrom (frame : Frame ι) (blocks : List (Block Op ι)) (effects : List Effect)
    (block : Nat) (values : ι → Value) (world : World) (value : Value) :
    BlockNext Op ι Value World Effect :=
  let values := Function.update values (frame.place .exception) value
  match blocks[block]?.bind Block.handler with
  | some label => enter blocks effects label values world
  | none => .halt effects ⟨.threw value, values, world⟩

def proceed (frame : Frame ι) (blocks : List (Block Op ι)) (block : Nat)
    (rest : List (Instruction Op ι)) (done : Executed ι Value World Effect) :
    BlockNext Op ι Value World Effect :=
  match done.control with
  | .next => .step done.effects ⟨block, rest, done.values, done.world⟩
  | .goto label => enter blocks done.effects label done.values done.world
  | .throw value => throwFrom frame blocks done.effects block done.values done.world value
  | .exit exit => .halt done.effects ⟨exit, done.values, done.world⟩
  | .stuck => .stuck

section
variable (semantics : Semantics Op Value World Effect) (frame : Frame ι)
  (blocks : List (Block Op ι))

def blockStep (config : Config Op ι Value World) : BlockNext Op ι Value World Effect :=
  match config.rest with
  | [] => leave frame blocks config.block config.values config.world
  | instruction :: rest =>
    proceed frame blocks config.block rest
      (execute semantics frame.place instruction config.values config.world)

theorem block_step_cons (block : Nat) (instruction : Instruction Op ι)
    (rest : List (Instruction Op ι)) (values : ι → Value) (world : World) :
    blockStep semantics frame blocks ⟨block, instruction :: rest, values, world⟩ =
      proceed frame blocks block rest
        (execute semantics frame.place instruction values world) := rfl

end
end
end Ladybone.Assembler
