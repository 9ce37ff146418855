import Ladybone.AsmIntGen.Instructions
import Mathlib.Data.Finset.Union
import Mathlib.Data.Finset.Card
import Mathlib.Data.List.Sort

/-!
# Liveness in the register allocator

Transcription of `allocator.rs` from `analyze_instruction` to `compute_liveness`: what each
instruction uses, defines and kills, and the backward liveness iteration. `fuel` bounds the
passes of the loop. The sets of the source that are only tested for membership and equality
are finite sets here; the declared temps are kept in the order of their declaration.
-/

namespace Ladybone.AsmIntGen

inductive Problem where
  | usedBeforeAssigned (name : String) (firstUse : Option Nat)
deriving DecidableEq

structure AllocationError where
  handler : String
  problem : Problem
deriving DecidableEq

/-- How the analysis ends without a result. -/
inductive Stop where
  | failed (error : AllocationError)
  | panicked
  | outOfFuel
deriving DecidableEq

def callerSaved : Arch → List String × List String
  | .x86_64 =>
    (["rax", "rcx", "rdx", "rsi", "rdi", "r8", "r9", "r10", "r11"],
      ["xmm0", "xmm1", "xmm2", "xmm3", "xmm4", "xmm5"])
  | .aarch64 =>
    (["x0", "x1", "x2", "x3", "x4", "x5", "x6", "x7", "x8", "x9", "x10", "x11", "x12", "x13",
        "x14", "x15", "x16", "x17"],
      ["d0", "d1", "d2", "d3", "d4", "d5", "d6", "d7"])

/-! ## Uses and definitions -/

structure Temps where
  (gpr fpr : List String)
deriving DecidableEq

def Temps.contains (temps : Temps) (name : String) : Bool :=
  temps.gpr.contains name || temps.fpr.contains name

structure UseDef where
  uses : Finset String := ∅
  defs : Finset String := ∅
  kills : Finset String := ∅
deriving DecidableEq

def isPhysicalRegister (name : String) : Arch → Bool
  | .x86_64 =>
    match name.toList with
    | 'r' :: _ => true
    | 'e' :: _ => true
    | 'x' :: 'm' :: 'm' :: _ => true
    | _ => false
  | .aarch64 =>
    match name.toList with
    | 'x' :: rest => rest.all Char.isDigit
    | 'w' :: rest => rest.all Char.isDigit
    | 'd' :: rest => rest.all Char.isDigit
    | 's' :: rest => rest.all Char.isDigit
    | _ => false

variable (arch : Arch)

def isRegisterName (temps : Temps) (name : String) : Bool :=
  temps.contains name || (resolveRegister name arch).isSome || isPhysicalRegister name arch

def UseDef.pushUse (isRegister : String → Bool) (useDef : UseDef) (name : String) : UseDef :=
  if isRegister name then { useDef with uses := insert name useDef.uses } else useDef

def UseDef.pushDef (isRegister : String → Bool) (useDef : UseDef) (name : String) : UseDef :=
  if isRegister name then { useDef with defs := insert name useDef.defs } else useDef

/-- An operand without a kind is a panic of the source. -/
def operandKindAt (info : InstructionInfo) (index : Nat) : Option OperandKind :=
  (info.operands[index]?).or info.variadicKind

def collectOperandRegisters : Operand → List String
  | .register name => [name]
  | .memory base index scale => base :: (index.toList ++ scale.toList)
  | _ => []

def applyOperandKind (isRegister : String → Bool) (useDef : UseDef) (operand : Operand) :
    OperandKind → UseDef
  | .gprIn | .fprIn | .gprInOrImm =>
    match operand with
    | .register name => useDef.pushUse isRegister name
    | _ => useDef
  | .gprOut | .fprOut =>
    match operand with
    | .register name => useDef.pushDef isRegister name
    | _ => useDef
  | .gprInOut | .fprInOut =>
    match operand with
    | .register name => (useDef.pushUse isRegister name).pushDef isRegister name
    | _ => useDef
  | .memory =>
    match operand with
    | .memory .. =>
      (collectOperandRegisters operand).foldl (UseDef.pushUse isRegister) useDef
    | _ => useDef
  | .imm | .label | .fieldRef | .funcSymbol => useDef

def applyOperands (isRegister : String → Bool) (info : InstructionInfo) :
    UseDef → Nat → List Operand → Option UseDef
  | useDef, _, [] => some useDef
  | useDef, index, operand :: rest =>
    match operandKindAt info index with
    | none => none
    | some kind =>
      applyOperands isRegister info (applyOperandKind isRegister useDef operand kind)
        (index + 1) rest

/-- What an instruction destroys besides its output operands. -/
def killSet (info : InstructionInfo) : List String :=
  (info.arch arch).implicitOutputs ++ (info.arch arch).clobbersGpr ++
    (info.arch arch).clobbersFpr ++
    if info.isCall then (callerSaved arch).1 ++ (callerSaved arch).2 else []

/-- `xor dst, dst` reads nothing. -/
def zeroedRegister (insn : AsmInstruction) : Option String :=
  if insn.mnemonic = "xor" then
    match insn.operands with
    | [.register first, .register second] => if first = second then some first else none
    | _ => none
  else none

def analyzeOperands (insn : AsmInstruction) (arch : Arch) (temps : Temps) : Option UseDef :=
  match lookup insn.mnemonic with
  | some info =>
    (applyOperands (isRegisterName arch temps) info {} 0 insn.operands).map fun useDef =>
      { uses := useDef.uses ∪ (info.arch arch).implicitInputs.toFinset
        defs := useDef.defs ∪ (info.arch arch).implicitOutputs.toFinset
        kills := useDef.kills ∪ (killSet arch info).toFinset }
  | none =>
    -- Without metadata every register is taken to be read and written.
    some ((insn.operands.flatMap collectOperandRegisters).foldl
      (fun useDef name => (useDef.pushUse (isRegisterName arch temps) name).pushDef
        (isRegisterName arch temps) name) {})

def analyzeInstruction (insn : AsmInstruction) (arch : Arch) (temps : Temps) : Option UseDef :=
  if insn.declares then some {}
  else if insn.mnemonic = "label" then some {}
  else
    match zeroedRegister insn with
    | some name =>
      if isRegisterName arch temps name then some { defs := {name} }
      else analyzeOperands insn arch temps
    | none => analyzeOperands insn arch temps

variable (instructions : List AsmInstruction)

/-! ## Liveness -/

def definesLabel (name : String) (insn : AsmInstruction) : Bool :=
  insn.mnemonic == "label" && insn.operands.head? == some (.label name)

/-- Of several definitions of a label the last one counts. -/
def findLabel (name : String) : List AsmInstruction → Option Nat
  | [] => none
  | insn :: rest =>
    ((findLabel name rest).map (· + 1)).or (if definesLabel name insn then some 0 else none)

/-- Only declarations may lack an entry in the table. -/
def isTerminal (insn : AsmInstruction) : Option Bool :=
  match lookup insn.mnemonic with
  | some info => some info.terminal
  | none => if insn.declares then some false else none

def branchTargets (insn : AsmInstruction) : List Nat :=
  insn.operands.filterMap fun operand =>
    match operand with
    | .label name => findLabel name instructions
    | _ => none

def successorsOf (index : Nat) (insn : AsmInstruction) (terminal : Bool) : List Nat :=
  branchTargets instructions insn ++
    if !terminal && index + 1 < instructions.length then [index + 1] else []

structure Flow where
  successors : List Nat
  useDef : UseDef

def flowAt (temps : Temps) (instructions : List AsmInstruction) (index : Nat)
    (insn : AsmInstruction) : Option Flow :=
  match isTerminal insn, analyzeInstruction insn arch temps with
  | some terminal, some useDef => some ⟨successorsOf instructions index insn terminal, useDef⟩
  | _, _ => none

def flows (temps : Temps) (instructions : List AsmInstruction) : Option (List Flow) :=
  (instructions.zipIdx).mapM fun entry => flowAt arch temps instructions entry.2 entry.1

structure LiveSets where
  (liveIn liveOut : List (Finset String))
  changed : Bool
deriving DecidableEq

namespace LiveSets

def inAt (sets : LiveSets) (index : Nat) : Finset String := sets.liveIn.getD index ∅

def outAt (sets : LiveSets) (index : Nat) : Finset String := sets.liveOut.getD index ∅

def newOut (sets : LiveSets) (flow : Flow) : Finset String :=
  flow.successors.foldl (fun out successor => out ∪ sets.inAt successor) ∅

def newIn (sets : LiveSets) (flow : Flow) : Finset String :=
  flow.useDef.uses ∪
    (sets.newOut flow).filter fun name => name ∉ flow.useDef.defs ∧ name ∉ flow.useDef.kills

def update (sets : LiveSets) (index : Nat) (flow : Flow) : LiveSets :=
  if sets.newIn flow ≠ sets.inAt index ∨ sets.newOut flow ≠ sets.outAt index then
    { liveIn := sets.liveIn.set index (sets.newIn flow)
      liveOut := sets.liveOut.set index (sets.newOut flow)
      changed := true }
  else sets

def pass (sets : LiveSets) (flows : List Flow) : LiveSets :=
  flows.zipIdx.foldr (fun entry sets => sets.update entry.2 entry.1) { sets with changed := false }

def iterate (flows : List Flow) : Nat → LiveSets → Option LiveSets
  | 0, _ => none
  | fuel + 1, sets =>
    if (sets.pass flows).changed then iterate flows fuel (sets.pass flows)
    else some (sets.pass flows)

def empty (length : Nat) : LiveSets :=
  ⟨List.replicate length ∅, List.replicate length ∅, true⟩

end LiveSets

structure Liveness where
  flows : List Flow
  sets : LiveSets

def firstUse (flows : List Flow) (name : String) : Option Nat :=
  flows.findIdx? fun flow => decide (name ∈ flow.useDef.uses ∧ name ∉ flow.useDef.defs)

/-- The source reports the first such temp of an ordered set. -/
def liveAtEntry (temps : Temps) (sets : LiveSets) : Option String :=
  (((temps.gpr ++ temps.fpr).filter fun name => decide (name ∈ sets.inAt 0)).insertionSort
    (· ≤ ·)).head?

def computeLiveness (fuel : Nat) (handler : String) (instructions : List AsmInstruction)
    (arch : Arch) (temps : Temps) : Except Stop Liveness :=
  match flows arch temps instructions with
  | none => .error .panicked
  | some flows =>
    match LiveSets.iterate flows fuel (LiveSets.empty instructions.length) with
    | none => .error .outOfFuel
    | some sets =>
      -- The entry of an empty body is an index out of bounds.
      if instructions = [] then .error .panicked
      else
        match liveAtEntry temps sets with
        | some name =>
          .error (.failed ⟨handler, .usedBeforeAssigned name (firstUse flows name)⟩)
        | none => .ok ⟨flows, sets⟩

end Ladybone.AsmIntGen
