import Mathlib.Data.List.Basic

/-!
# Instructions of the interpreter generator

Transcription of `registers.rs`, of the operands of `parser.rs` and of the instruction table
of `instructions.rs`: for every instruction what its operands are, whether control falls
through, whether it calls C++, and which registers it touches on each architecture.
-/

namespace Ladybone.AsmIntGen

inductive Arch where
  | x86_64
  | aarch64
deriving DecidableEq

/-! ## Registers -/

structure RegisterMapping where
  (pc pb values execCtx dispatch : String)
  (temporaries fpTemporaries : List String)
  (sp fp : String)

def mappingFor : Arch → RegisterMapping
  | .x86_64 =>
    { pc := "r13"
      pb := "r14"
      values := "r15"
      execCtx := "rbx"
      dispatch := "r12"
      temporaries := ["rax", "rcx", "rdx", "rsi", "rdi", "r8", "r9", "r10", "r11"]
      fpTemporaries := ["xmm0", "xmm1", "xmm2", "xmm3"]
      sp := "rsp"
      fp := "rbp" }
  | .aarch64 =>
    { pc := "x25"
      pb := "x26"
      values := "x27"
      execCtx := "x28"
      dispatch := "x19"
      temporaries := ["x0", "x1", "x2", "x3", "x4", "x5", "x6", "x7", "x8"]
      fpTemporaries := ["d0", "d1", "d2", "d3"]
      sp := "sp"
      fp := "x29" }

def resolveRegister (name : String) (arch : Arch) : Option String :=
  match name with
  | "pc" => some (mappingFor arch).pc
  | "pb" => some (mappingFor arch).pb
  | "values" => some (mappingFor arch).values
  | "exec_ctx" => some (mappingFor arch).execCtx
  | "dispatch" => some (mappingFor arch).dispatch
  | "sp" => some (mappingFor arch).sp
  | "fp" => some (mappingFor arch).fp
  | _ => none

/-! ## Operands -/

inductive Operand where
  | register (name : String)
  | immediate (value : Int)
  | constant (name : String)
  | memory (base : String) (index scale : Option String)
  | label (name : String)
  | fieldRef (name : String)
deriving DecidableEq

structure AsmInstruction where
  mnemonic : String
  operands : List Operand
deriving DecidableEq

/-- `temp` and `ftemp` only declare names. -/
def AsmInstruction.declares (insn : AsmInstruction) : Bool :=
  insn.mnemonic == "temp" || insn.mnemonic == "ftemp"

inductive OperandKind where
  | gprIn
  | gprOut
  | gprInOut
  | fprIn
  | fprOut
  | fprInOut
  | gprInOrImm
  | imm
  | memory
  | label
  | fieldRef
  | funcSymbol
deriving DecidableEq

/-! ## The table -/

structure ArchSpec where
  clobbersGpr : List String := []
  clobbersFpr : List String := []
  implicitInputs : List String := []
  implicitOutputs : List String := []
  fixedOperands : List (Nat × String) := []
deriving DecidableEq

structure InstructionInfo where
  mnemonic : String
  operands : List OperandKind
  variadicKind : Option OperandKind
  (terminal isCall : Bool)
  (x86_64 aarch64 : ArchSpec)
deriving DecidableEq

def InstructionInfo.arch (info : InstructionInfo) : Arch → ArchSpec
  | .x86_64 => info.x86_64
  | .aarch64 => info.aarch64

def info (mnemonic : String) (operands : List OperandKind) (variadicKind : Option OperandKind)
    (terminal isCall : Bool) (x86_64 aarch64 : ArchSpec) : InstructionInfo :=
  ⟨mnemonic, operands, variadicKind, terminal, isCall, x86_64, aarch64⟩

def plain (mnemonic : String) (operands : List OperandKind) : InstructionInfo :=
  info mnemonic operands none false false {} {}

def instructions : List InstructionInfo :=
  [
    -- Pseudo / control flow
    info "label" [.label] none false false {} {},
    info "jmp" [.label] none true false {} {},
    info "exit" [] none true false {} {},
    info "dispatch_next" [] none true false { clobbersGpr := ["rax"] }
      { clobbersGpr := ["x9", "x10"] },
    info "dispatch_variable" [.gprIn] none true false { clobbersGpr := ["rax"] }
      { clobbersGpr := ["x9", "x10"] },
    info "dispatch_current" [] none true false { clobbersGpr := ["rax"] }
      { clobbersGpr := ["x9", "x10"] },
    info "goto_handler" [.gprIn] none true false { clobbersGpr := ["rax"] }
      { clobbersGpr := ["x9", "x10"] },
    -- C++ interop
    info "call_slow_path" [.funcSymbol] none true true { clobbersGpr := ["rax", "rcx"] }
      { clobbersGpr := ["x9", "x10"] },
    info "call_helper" [.funcSymbol, .gprIn, .gprOut] none false true
      { implicitInputs := ["rcx"],
        implicitOutputs := ["rax"], fixedOperands := [(1, "rcx"), (2, "rax")] }
      { implicitInputs := ["x0"],
        implicitOutputs := ["x0"], fixedOperands := [(1, "x0"), (2, "x0")] },
    info "call_interp" [.funcSymbol, .gprOut] none false true
      { implicitOutputs := ["rax"], fixedOperands := [(1, "rax")] }
      { implicitOutputs := ["x0"], fixedOperands := [(1, "x0")] },
    info "call_raw_native" [.gprIn, .gprOut, .gprOut] none false true
      { clobbersGpr := ["r11"],
        implicitOutputs := ["rax", "rcx"], fixedOperands := [(1, "rax"), (2, "rcx")] }
      { clobbersGpr := ["x9"],
        implicitOutputs := ["x0", "x1"], fixedOperands := [(1, "x0"), (2, "x1")] },
    info "reload_exec_ctx" [] none false false { clobbersGpr := ["rcx"] } {},
    plain "load_vm" [.gprOut],
    -- Bytecode operand access
    info "load_operand" [.gprOut, .fieldRef] none false false { clobbersGpr := ["rax"] }
      { clobbersGpr := ["x9"] },
    info "store_operand" [.fieldRef, .gprIn] none false false { clobbersGpr := ["r11"] }
      { clobbersGpr := ["x9"] },
    plain "load_label" [.gprOut, .fieldRef],
    -- Memory access
    info "load64" [.gprOut, .memory] none false false {} { clobbersGpr := ["x9"] },
    info "load32" [.gprOut, .memory] none false false {} { clobbersGpr := ["x9"] },
    info "load16" [.gprOut, .memory] none false false {} { clobbersGpr := ["x9"] },
    info "load16s" [.gprOut, .memory] none false false {} { clobbersGpr := ["x9"] },
    info "load8" [.gprOut, .memory] none false false {} { clobbersGpr := ["x9"] },
    info "load8s" [.gprOut, .memory] none false false {} { clobbersGpr := ["x9"] },
    info "loadf32" [.fprOut, .memory] none false false {} { clobbersGpr := ["x9"] },
    info "store64" [.memory, .gprInOrImm] none false false {} { clobbersGpr := ["x9"] },
    info "store32" [.memory, .gprIn] none false false {} { clobbersGpr := ["x9"] },
    info "store16" [.memory, .gprIn] none false false {} { clobbersGpr := ["x9"] },
    info "store8" [.memory, .gprIn] none false false {} { clobbersGpr := ["x9"] },
    info "storef32" [.memory, .fprIn] none false false {} { clobbersGpr := ["x9"] },
    info "load_pair64" [.gprOut, .gprOut, .memory, .memory] none false false {}
      { clobbersGpr := ["x10"] },
    info "load_pair32" [.gprOut, .gprOut, .memory, .memory] none false false {}
      { clobbersGpr := ["x10"] },
    info "store_pair64" [.memory, .memory, .gprIn, .gprIn] none false false {}
      { clobbersGpr := ["x10"] },
    info "store_pair32" [.memory, .memory, .gprIn, .gprIn] none false false {}
      { clobbersGpr := ["x10"] },
    info "inc32_mem" [.memory] none false false {} { clobbersGpr := ["x9"] },
    info "lea" [.gprOut, .memory] none false false {} { clobbersGpr := ["x9"] },
    -- Integer ALU
    info "mov" [.gprOut, .gprInOrImm] none false false {} {},
    info "movsxd" [.gprOut, .gprIn] none false false {} {},
    info "add" [.gprInOut, .gprInOrImm] none false false {} { clobbersGpr := ["x9"] },
    info "sub" [.gprInOut, .gprInOrImm] none false false {} { clobbersGpr := ["x9"] },
    info "mul" [.gprOut, .gprIn] (some .gprInOrImm) false false {} { clobbersGpr := ["x9"] },
    info "neg" [.gprInOut] none false false {} {},
    info "not" [.gprInOut] none false false {} {},
    info "and" [.gprInOut, .gprInOrImm] none false false {} { clobbersGpr := ["x9"] },
    info "or" [.gprInOut, .gprInOrImm] none false false {} { clobbersGpr := ["x9"] },
    info "xor" [.gprInOut, .gprInOrImm] none false false {} { clobbersGpr := ["x9"] },
    info "shl" [.gprInOut, .gprInOrImm] none false false { fixedOperands := [(1, "rcx")] } {},
    info "shr" [.gprInOut, .gprInOrImm] none false false { fixedOperands := [(1, "rcx")] } {},
    info "sar" [.gprInOut, .gprInOrImm] none false false { fixedOperands := [(1, "rcx")] } {},
    info "divmod" [.gprOut, .gprOut, .gprIn, .gprIn] none false false
      { fixedOperands := [(0, "rax"), (1, "rdx")], implicitOutputs := ["rax", "rdx"] }
      { clobbersGpr := ["x9"] },
    -- 32-bit arithmetic with overflow detection
    info "add32_overflow" [.gprInOut, .gprInOrImm, .label] none false false {}
      { clobbersGpr := ["x9"] },
    info "sub32_overflow" [.gprInOut, .gprInOrImm, .label] none false false {}
      { clobbersGpr := ["x9"] },
    info "mul32_overflow" [.gprInOut, .gprIn, .label] none false false {} { clobbersGpr := ["x9"] },
    info "neg32_overflow" [.gprInOut, .label] none false false {} {},
    info "not32" [.gprInOut] none false false {} {},
    -- NaN-boxing operations
    plain "extract_tag" [.gprOut, .gprIn],
    plain "unbox_int32" [.gprOut, .gprIn],
    plain "unbox_object" [.gprOut, .gprIn],
    info "box_int32" [.gprOut, .gprIn] none false false { clobbersGpr := ["rax"] } {},
    info "box_int32_clean" [.gprOut, .gprIn] none false false { clobbersGpr := ["rax"] } {},
    -- Bit manipulation
    info "toggle_bit" [.gprInOut, .imm] none false false {} { clobbersGpr := ["x9"] },
    info "clear_bit" [.gprInOut, .imm] none false false {} { clobbersGpr := ["x9"] },
    -- Floating-point
    plain "fp_add" [.fprInOut, .fprIn],
    plain "fp_sub" [.fprInOut, .fprIn],
    plain "fp_mul" [.fprInOut, .fprIn],
    plain "fp_div" [.fprInOut, .fprIn],
    plain "fp_sqrt" [.fprOut, .fprIn],
    plain "fp_floor" [.fprOut, .fprIn],
    plain "fp_ceil" [.fprOut, .fprIn],
    plain "fp_mov" [.gprOut, .fprIn],
    plain "int_to_double" [.fprOut, .gprIn],
    plain "float_to_double" [.fprOut, .fprIn],
    plain "double_to_float" [.fprOut, .fprIn],
    info "double_to_int32" [.gprOut, .fprIn, .label] none false false
      { clobbersGpr := ["rcx"], clobbersFpr := ["xmm3"] }
      { clobbersFpr := ["d16"] },
    info "js_to_int32" [.gprOut, .fprIn, .label] none false false { clobbersGpr := ["rcx"] }
      { clobbersFpr := ["d16"] },
    plain "canonicalize_nan" [.gprOut, .fprIn],
    -- Branching
    plain "branch_eq" [.gprIn, .gprInOrImm, .label],
    plain "branch_ne" [.gprIn, .gprInOrImm, .label],
    plain "branch_ge_unsigned" [.gprIn, .gprInOrImm, .label],
    plain "branch_lt_signed" [.gprIn, .gprInOrImm, .label],
    plain "branch_le_signed" [.gprIn, .gprInOrImm, .label],
    plain "branch_gt_signed" [.gprIn, .gprInOrImm, .label],
    plain "branch_ge_signed" [.gprIn, .gprInOrImm, .label],
    plain "branch_zero" [.gprIn, .label],
    plain "branch_nonzero" [.gprIn, .label],
    plain "branch_negative" [.gprIn, .label],
    plain "branch_not_negative" [.gprIn, .label],
    plain "branch_zero32" [.gprIn, .label],
    plain "branch_nonzero32" [.gprIn, .label],
    info "branch_bits_set" [.gprIn, .gprInOrImm, .label] none false false {}
      { clobbersGpr := ["x9"] },
    info "branch_bits_clear" [.gprIn, .gprInOrImm, .label] none false false {}
      { clobbersGpr := ["x9"] },
    info "branch_bit_set" [.gprIn, .imm, .label] none false false {} { clobbersGpr := ["x9"] },
    info "branch_any_eq" [.gprIn] (some .gprInOrImm) false false {} {},
    plain "branch_fp_unordered" [.fprIn, .fprIn, .label],
    plain "branch_fp_equal" [.fprIn, .fprIn, .label],
    plain "branch_fp_less" [.fprIn, .fprIn, .label],
    plain "branch_fp_less_or_equal" [.fprIn, .fprIn, .label],
    plain "branch_fp_greater" [.fprIn, .fprIn, .label],
    plain "branch_fp_greater_or_equal" [.fprIn, .fprIn, .label],
    -- Assertions
    info "assert_eq" [.gprIn, .gprInOrImm] none false false {} { clobbersGpr := ["x9"] },
    info "assert_ne" [.gprIn, .gprInOrImm] none false false {} { clobbersGpr := ["x9"] },
    info "assert_lt_unsigned" [.gprIn, .gprInOrImm] none false false {} { clobbersGpr := ["x9"] },
    info "assert_ge_unsigned" [.gprIn, .gprInOrImm] none false false {} { clobbersGpr := ["x9"] },
    plain "assert_zero" [.gprIn],
    plain "assert_nonzero" [.gprIn],
    info "assert_bits_set" [.gprIn, .gprInOrImm] none false false {} { clobbersGpr := ["x9"] },
    info "assert_bits_clear" [.gprIn, .gprInOrImm] none false false {} { clobbersGpr := ["x9"] },
    info "assert_tag" [.gprIn, .gprInOrImm] none false false { clobbersGpr := ["r11"] }
      { clobbersGpr := ["x9"] },
    info "assert_not_tag" [.gprIn, .gprInOrImm] none false false { clobbersGpr := ["r11"] }
      { clobbersGpr := ["x9"] }
  ]

def lookup (mnemonic : String) : Option InstructionInfo :=
  instructions.find? fun info => info.mnemonic == mnemonic

end Ladybone.AsmIntGen
