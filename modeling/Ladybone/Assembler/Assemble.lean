import Ladybone.Assembler.Blocks
import Ladybone.Support.SortedSearch

/-!
# The assembler

From basic blocks to one buffer: the unused load of the saved lexical environment is removed,
operands get their place in one index space, consecutive moves are merged, block offsets are
computed from the predicted sizes, labels are patched, and the instructions are laid out one
behind the other with the ranges of the exception handlers. The buffer is a list of
instructions, each as long as its encoding.
-/

namespace Ladybone.Assembler

open Support.Simulation Support.SortedSearch

/-! ## Operands -/

/-- How many registers, locals and constants the generator handed out; the first five registers
are reserved. -/
structure Counts where
  (registers locals constants : Nat)
  reserved : 5 ≤ registers

inductive Operand (counts : Counts) where
  | register (index : Fin counts.registers)
  | localVariable (index : Fin counts.locals)
  | constant (index : Fin counts.constants)
  | argument (index : Nat)
deriving DecidableEq

namespace Operand

variable {counts : Counts}

def offsetIndex : Operand counts → Nat
  | register index => index
  | localVariable index => index + counts.registers
  | constant index => index + (counts.registers + counts.locals)
  | argument index => index + (counts.registers + counts.locals + counts.constants)

def reserved (counts : Counts) : ReservedRegister → Operand counts
  | .accumulator => register ⟨0, Nat.lt_of_lt_of_le (by decide) counts.reserved⟩
  | .exception => register ⟨1, Nat.lt_of_lt_of_le (by decide) counts.reserved⟩
  | .thisValue => register ⟨2, Nat.lt_of_lt_of_le (by decide) counts.reserved⟩
  | .returnValue => register ⟨3, Nat.lt_of_lt_of_le (by decide) counts.reserved⟩

def savedLexicalEnvironment (counts : Counts) : Operand counts :=
  register ⟨4, Nat.lt_of_lt_of_le (by decide) counts.reserved⟩

end Operand

structure Program (Op : Type) (counts : Counts) where
  blocks : List (Block Op (Operand counts))
  undefinedConstant : Option (Fin counts.constants)
  closed : Closed blocks (undefinedConstant.map Operand.constant)

def Program.frame {Op : Type} {counts : Counts} (program : Program Op counts) :
    Frame (Operand counts) :=
  ⟨Operand.reserved counts, program.undefinedConstant.map .constant⟩

section
variable {Op ι κ : Type} [DecidableEq ι]

/-! ## The load of the saved environment -/

def startsWithLoad (saved : ι) (block : Block Op ι) : Bool :=
  match block.instructions with
  | .getLexicalEnvironment dst :: _ => dst == saved
  | _ => false

def Block.dropFirst (block : Block Op ι) : Block Op ι :=
  { block with instructions := block.instructions.tail }

def mentions (saved : ι) (block : Block Op ι) : Bool :=
  block.instructions.any fun instruction => instruction.operands.contains saved

/-- The block that loses its load: the first one to start with it, if no other instruction
mentions the register. -/
def unusedLoad (saved : ι) (blocks : List (Block Op ι)) : Option Nat :=
  match blocks.findIdx? (startsWithLoad saved) with
  | some index =>
    if (blocks.modify index Block.dropFirst).any (mentions saved) then none else some index
  | none => none

def dropUnusedLoad (saved : ι) (blocks : List (Block Op ι)) : List (Block Op ι) :=
  match unusedLoad saved blocks with
  | some index => blocks.modify index Block.dropFirst
  | none => blocks

/-! ## Phase 1: operands -/

def Block.mapOperands (rewrite : ι → κ) (block : Block Op ι) : Block Op κ :=
  { instructions := block.instructions.map (Instruction.mapOperands rewrite)
    handler := block.handler
    terminated := block.terminated }

/-! ## Phase 1b: moves -/

/-- The peephole, with the move it stands at once it has found one. Removing an equal move and
looking again from the same place is going on with that move still pending. -/
def mergeMovs : Option (ι × ι) → List (Instruction Op ι) → List (Instruction Op ι)
  | none, [] => []
  | none, .mov dst src :: rest => mergeMovs (some (dst, src)) rest
  | none, instruction :: rest => instruction :: mergeMovs none rest
  | some (dst₁, src₁), .mov dst₂ src₂ :: rest =>
    if dst₁ = dst₂ ∧ src₁ = src₂ then mergeMovs (some (dst₁, src₁)) rest
    else
      match rest with
      | .mov dst₃ src₃ :: rest =>
        let mov2IsDup := dst₂ = dst₁ ∧ src₂ = src₁
        let mov3IsDup := dst₃ = dst₁ ∧ src₃ = src₁ ∨ dst₃ = dst₂ ∧ src₃ = src₂
        if mov2IsDup ∧ mov3IsDup then mergeMovs (some (dst₁, src₁)) rest
        else if mov2IsDup then .mov2 dst₁ src₁ dst₃ src₃ :: mergeMovs none rest
        else if mov3IsDup then .mov2 dst₁ src₁ dst₂ src₂ :: mergeMovs none rest
        else .mov3 dst₁ src₁ dst₂ src₂ dst₃ src₃ :: mergeMovs none rest
      | rest => .mov2 dst₁ src₁ dst₂ src₂ :: mergeMovs none rest
  | some (dst₁, src₁), instruction :: rest =>
    .mov dst₁ src₁ :: instruction :: mergeMovs none rest
  | some (dst₁, src₁), [] => [.mov dst₁ src₁]

def Block.mergeMovs (block : Block Op ι) : Block Op ι :=
  { block with instructions := Assembler.mergeMovs none block.instructions }

end

/-! ## Phase 2: actions and offsets -/

/-- The lengths of encoded instructions: they are positive and depend neither on the operands
nor on the labels. -/
structure Encoding (Op : Type) where
  encodedSize : Instruction Op Nat → Nat
  positive : ∀ instruction, 0 < encodedSize instruction
  mapLabels : ∀ patch instruction,
    encodedSize (Instruction.mapLabels patch instruction) = encodedSize instruction
  mapOperands : ∀ rewrite instruction,
    encodedSize (Instruction.mapOperands rewrite instruction) = encodedSize instruction

inductive InstAction where
  | emit
  | skip
  | jumpToReturn (value : Nat)
  | jumpToEnd (value : Nat)
  | emitJumpTrue (condition target : Nat)
  | emitJumpFalse (condition target : Nat)

structure ExceptionHandler where
  (startOffset endOffset handlerOffset : Nat)
deriving DecidableEq

structure AssembledBytecode (Op : Type) where
  bytecode : List (Instruction Op Nat)
  exceptionHandlers : List ExceptionHandler

section
variable {Op : Type} (encoding : Encoding Op) (blocks : List (Block Op Nat))

def onlyExit (block : Block Op Nat) : Option InstAction :=
  if block.terminated then
    match block.instructions with
    | [.return value] => some (.jumpToReturn value)
    | [.end value] => some (.jumpToEnd value)
    | _ => none
  else none

def instAction (index : Nat) : Instruction Op Nat → InstAction
  | .jump target =>
    if target = index + 1 then .skip
    else (blocks[target]?.bind onlyExit).getD .emit
  | .jumpIf condition trueTarget falseTarget =>
    if trueTarget = index + 1 then .emitJumpFalse condition falseTarget
    else if falseTarget = index + 1 then .emitJumpTrue condition trueTarget
    else .emit
  | _ => .emit

def predictedSize (index : Nat) (instruction : Instruction Op Nat) : Nat :=
  match instAction blocks index instruction with
  | .emit => encoding.encodedSize instruction
  | .skip => 0
  | .jumpToReturn value => encoding.encodedSize (.return value)
  | .jumpToEnd value => encoding.encodedSize (.end value)
  | .emitJumpTrue condition target => encoding.encodedSize (.jumpTrue condition target)
  | .emitJumpFalse condition target => encoding.encodedSize (.jumpFalse condition target)

def predictedBlockSize (index : Nat) (block : Block Op Nat) : Nat :=
  (block.instructions.map (predictedSize encoding blocks index)).sum +
    if block.terminated then 0 else encoding.encodedSize (.end 0)

def blockOffsetsFrom : Nat → Nat → List (Block Op Nat) → List Nat
  | _, _, [] => []
  | index, offset, block :: rest =>
    offset :: blockOffsetsFrom (index + 1)
      (offset + predictedBlockSize encoding blocks index block) rest

def blockOffsets : List Nat := blockOffsetsFrom encoding blocks 0 0 blocks

def blockOffset (label : Nat) : Nat := (blockOffsets encoding blocks).getD label 0

/-! ## Phases 3 and 4: labels and layout -/

def encodeInst (index : Nat) (instruction : Instruction Op Nat) : List (Instruction Op Nat) :=
  match instAction blocks index instruction with
  | .emit => [instruction.mapLabels (blockOffset encoding blocks)]
  | .skip => []
  | .jumpToReturn value => [.return value]
  | .jumpToEnd value => [.end value]
  | .emitJumpTrue condition target => [.jumpTrue condition (blockOffset encoding blocks target)]
  | .emitJumpFalse condition target => [.jumpFalse condition (blockOffset encoding blocks target)]

def encodeEnd (undefinedOperand : Option Nat) (block : Block Op Nat) : List (Instruction Op Nat) :=
  if block.terminated then [] else undefinedOperand.toList.map .end

def encodeBlock (undefinedOperand : Option Nat) (index : Nat) (block : Block Op Nat) :
    List (Instruction Op Nat) :=
  block.instructions.flatMap (encodeInst encoding blocks index) ++ encodeEnd undefinedOperand block

def encodeFrom (undefinedOperand : Option Nat) :
    Nat → List (Block Op Nat) → List (Instruction Op Nat)
  | _, [] => []
  | index, block :: rest =>
    encodeBlock encoding blocks undefinedOperand index block ++
      encodeFrom undefinedOperand (index + 1) rest

def codeSize (code : List (Instruction Op Nat)) : Nat := (code.map encoding.encodedSize).sum

/-- The range of each block with a handler, from where the buffer ends before the block to
where it ends behind it. -/
def handlersFrom (undefinedOperand : Option Nat) :
    Nat → Nat → List (Block Op Nat) → List ExceptionHandler
  | _, _, [] => []
  | index, start, block :: rest =>
    let finish :=
      start + codeSize encoding (encodeBlock encoding blocks undefinedOperand index block)
    (block.handler.map fun label =>
        ⟨start, finish, blockOffset encoding blocks label⟩).toList ++
      handlersFrom undefinedOperand (index + 1) finish rest

/-- Adjacent ranges with the same handler become one; the first argument is the last range
so far. -/
def mergeInto : ExceptionHandler → List ExceptionHandler → List ExceptionHandler
  | last, [] => [last]
  | last, handler :: rest =>
    if last.endOffset = handler.startOffset ∧ last.handlerOffset = handler.handlerOffset then
      mergeInto { last with endOffset := handler.endOffset } rest
    else last :: mergeInto handler rest

def mergeHandlers : List ExceptionHandler → List ExceptionHandler
  | [] => []
  | handler :: rest => mergeInto handler rest

def layOut (undefinedOperand : Option Nat) : AssembledBytecode Op :=
  { bytecode := encodeFrom encoding blocks undefinedOperand 0 blocks
    exceptionHandlers :=
      (mergeHandlers (handlersFrom encoding blocks undefinedOperand 0 0 blocks)).insertionSort
        (fun left right => left.startOffset ≤ right.startOffset) }

end

/-! ## Assembly -/

section
variable {Op : Type} {counts : Counts}

def preparedBlocks (program : Program Op counts) : List (Block Op Nat) :=
  ((dropUnusedLoad (Operand.savedLexicalEnvironment counts) program.blocks).map
    (Block.mapOperands Operand.offsetIndex)).map Block.mergeMovs

def undefinedOperand (program : Program Op counts) : Option Nat :=
  program.undefinedConstant.map fun index => (Operand.constant index).offsetIndex

def assemble (encoding : Encoding Op) (program : Program Op counts) : AssembledBytecode Op :=
  layOut encoding (preparedBlocks program) (undefinedOperand program)

end

/-! ## Running the buffer -/

section
variable {Op Value World Effect : Type}

def fetch (encoding : Encoding Op) : List (Instruction Op Nat) → Nat → Option (Instruction Op Nat)
  | [], _ => none
  | instruction :: rest, programCounter =>
    if programCounter = 0 then some instruction
    else if programCounter < encoding.encodedSize instruction then none
    else fetch encoding rest (programCounter - encoding.encodedSize instruction)

def probe (offset : Nat) (entry : ExceptionHandler) : Int :=
  if offset < entry.startOffset then -1 else if entry.endOffset ≤ offset then 1 else 0

def handlerForOffset (handlers : List ExceptionHandler) (offset : Nat) : Option ExceptionHandler :=
  (binarySearch (probe offset) handlers).bind fun index => handlers[index]?

structure FlatConfig (Value World : Type) where
  programCounter : Nat
  values : Nat → Value
  world : World

abbrev FlatNext (Value World Effect : Type) :=
  Next (FlatConfig Value World) Effect (Result Nat Value World)

def flatProceed (encoding : Encoding Op) (place : ReservedRegister → Nat)
    (handlers : List ExceptionHandler) (programCounter : Nat) (instruction : Instruction Op Nat)
    (done : Executed Nat Value World Effect) : FlatNext Value World Effect :=
  match done.control with
  | .next =>
    .step done.effects ⟨programCounter + encoding.encodedSize instruction, done.values, done.world⟩
  | .goto offset => .step done.effects ⟨offset, done.values, done.world⟩
  | .throw value =>
    let values := Function.update done.values (place .exception) value
    match handlerForOffset handlers programCounter with
    | some handler => .step done.effects ⟨handler.handlerOffset, values, done.world⟩
    | none => .halt done.effects ⟨.threw value, values, done.world⟩
  | .exit exit => .halt done.effects ⟨exit, done.values, done.world⟩
  | .stuck => .stuck

def flatStep (semantics : Semantics Op Value World Effect) (encoding : Encoding Op)
    (place : ReservedRegister → Nat) (executable : AssembledBytecode Op)
    (config : FlatConfig Value World) : FlatNext Value World Effect :=
  match fetch encoding executable.bytecode config.programCounter with
  | none => .stuck
  | some instruction =>
    flatProceed encoding place executable.exceptionHandlers config.programCounter instruction
      (execute semantics place instruction config.values config.world)

end
end Ladybone.Assembler
