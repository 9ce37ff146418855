import Ladybone.Wasm.Control.Code

/-!
# The validator's control frames

The control instructions of `Validator::validate_instruction` with the stack of types that may
be unknown in unreachable code. Lists start with the last entry: the innermost frame, the top
of the stack.
-/

namespace Ladybone.Wasm.Control

inductive FrameKind where
  | block
  | loop
  | if_
  | else_
  | function
deriving DecidableEq

structure Frame (Ty : Type) where
  type : FunctionType Ty
  kind : FrameKind
  initialSize : Nat
  unreachable : Bool := false
deriving DecidableEq

def Frame.labels {Ty : Type} (frame : Frame Ty) : List Ty :=
  if frame.kind ≠ .loop then frame.type.results else frame.type.parameters

/-- A known type, or one of unreachable code. -/
abbrev StackEntry (Ty : Type) := Option Ty

/-- What the validator of one function knows: the types and functions of its module, and how it
checks each opaque operation against the entries it takes. -/
structure Context (Ty Op : Type) where
  i32 : Ty
  isSubtypeOf : Ty → Ty → Bool
  types : List (Option (FunctionType Ty))
  functions : List (FunctionType Ty)
  (pops pushes : Op → Nat)
  check : Op → List (StackEntry Ty) → Option (List (StackEntry Ty))
  check_length : ∀ op taken put, check op taken = some put → put.length = pushes op

section
variable {Ty Op : Type} [DecidableEq Ty] (context : Context Ty Op)

def Context.blockType : BlockType Ty → Option (FunctionType Ty)
  | .index index => (context.types[index]?).join
  | .type type => some ⟨[], [type]⟩
  | .empty => some ⟨[], []⟩

/-! ## The stack -/

variable (frame : Frame Ty)

def takeLast (stack : List (StackEntry Ty)) : Option (StackEntry Ty × List (StackEntry Ty)) :=
  if stack.length = frame.initialSize then
    if frame.unreachable then some (none, stack) else none
  else
    match stack with
    | entry :: rest => some (entry, rest)
    | [] => none

def Context.accepts (entry : StackEntry Ty) (type : Ty) : Bool :=
  match entry with
  | none => true
  | some concrete => context.isSubtypeOf concrete type

def Context.take (type : Ty) (stack : List (StackEntry Ty)) :
    Option (StackEntry Ty × List (StackEntry Ty)) :=
  match takeLast frame stack with
  | some (entry, rest) => if context.accepts entry type then some (entry, rest) else none
  | none => none

/-- Takes types from the top on; gives the entries taken and what is left. -/
def Context.takeFrom (frame : Frame Ty) :
    List Ty → List (StackEntry Ty) → Option (List (StackEntry Ty) × List (StackEntry Ty))
  | [], stack => some ([], stack)
  | type :: types, stack =>
    match context.take frame type stack with
    | some (entry, rest) =>
      match takeFrom frame types rest with
      | some (entries, rest) => some (entry :: entries, rest)
      | none => none
    | none => none

/-- Takes types as a signature lists them, the last one from the top. -/
def Context.takeTypes (types : List Ty) (stack : List (StackEntry Ty)) :
    Option (List (StackEntry Ty) × List (StackEntry Ty)) :=
  context.takeFrom frame types.reverse stack

def takeMany (frame : Frame Ty) :
    Nat → List (StackEntry Ty) → Option (List (StackEntry Ty) × List (StackEntry Ty))
  | 0, stack => some ([], stack)
  | count + 1, stack =>
    match takeLast frame stack with
    | some (entry, rest) =>
      match takeMany frame count rest with
      | some (entries, rest) => some (entry :: entries, rest)
      | none => none
    | none => none

def putTypes (types : List Ty) (stack : List (StackEntry Ty)) : List (StackEntry Ty) :=
  types.reverse.map some ++ stack

def shrinkTo (size : Nat) (stack : List (StackEntry Ty)) : List (StackEntry Ty) :=
  stack.drop (stack.length - size)

/-! ## Instructions -/

structure Checked (Ty : Type) where
  frames : List (Frame Ty)
  stack : List (StackEntry Ty)

def stop (outer : List (Frame Ty)) (stack : List (StackEntry Ty)) : Checked Ty :=
  ⟨{ frame with unreachable := true } :: outer, shrinkTo frame.initialSize stack⟩

/-- The check of one more label of a `br_table`: its types are taken and put back. -/
def Context.checkTableLabel (frames : List (Frame Ty)) (arity : Nat)
    (label : Nat) (stack : List (StackEntry Ty)) : Option (List (StackEntry Ty)) :=
  match frames[label]? with
  | none => none
  | some target =>
    if target.labels.length ≠ arity then none
    else
      match context.takeTypes frame target.labels stack with
      | some (popped, rest) => some (popped ++ rest)
      | none => none

def Context.checkTableLabels (frame : Frame Ty) (frames : List (Frame Ty)) (arity : Nat) :
    List Nat → List (StackEntry Ty) → Option (List (StackEntry Ty))
  | [], stack => some stack
  | label :: labels, stack =>
    match context.checkTableLabel frame frames arity label stack with
    | some stack => checkTableLabels frame frames arity labels stack
    | none => none

section
variable (frame : Frame Ty) (outer : List (Frame Ty)) (stack : List (StackEntry Ty))

def Context.validateElse : Option (Checked Ty) :=
  if frame.kind = .if_ then do
    let (_, rest) ← context.takeTypes frame frame.type.results stack
    if rest.length = frame.initialSize then
      some ⟨{ frame with kind := .else_, unreachable := false } :: outer,
        putTypes frame.type.parameters rest⟩
    else none
  else none

def Context.validateEnd : Option (Checked Ty) := do
  let (_, rest) ← context.takeTypes frame frame.type.results stack
  if rest.length = frame.initialSize then some ⟨outer, putTypes frame.type.results rest⟩
  else none

/-- An `end` first checks the empty `else` of an `if` that has none. -/
def Context.validateEndOfBlock : Option (Checked Ty) :=
  if frame.kind = .if_ then do
    let behind ← context.validateElse frame outer stack
    match behind.frames with
    | frame :: outer => context.validateEnd frame outer behind.stack
    | [] => none
  else context.validateEnd frame outer stack

end

def Context.enterBlock (kind : FrameKind) (frame : Frame Ty) (outer : List (Frame Ty))
    (args : StructuredArgs Ty) (stack : List (StackEntry Ty)) :
    Option (StructuredArgs Ty × Checked Ty) := do
  let type ← context.blockType args.blockType
  let (_, rest) ← context.takeTypes frame type.parameters stack
  some ({ args with arity := type.results.length, parameterCount := type.parameters.length },
    ⟨{ type, kind, initialSize := rest.length } :: frame :: outer,
      putTypes type.parameters rest⟩)

/-- What follows the operands of a call, or of a tail call. -/
def Context.callTypes (type : FunctionType Ty)
    (stack : List (StackEntry Ty)) : Option (List (StackEntry Ty)) := do
  let (_, rest) ← context.takeTypes frame type.parameters stack
  some (putTypes type.results rest)

def Context.tailCallTypes (outer : List (Frame Ty)) (type : FunctionType Ty)
    (stack : List (StackEntry Ty)) : Option (Checked Ty) := do
  let (_, rest) ← context.takeTypes frame type.parameters stack
  let first ← (frame :: outer).getLast?
  if first.type.results = type.results then some (stop frame outer rest) else none

/-- `validate_instruction`: the instruction with what the validator writes into it, and the
frames and types behind it. -/
def Context.validate (instruction : Instruction Ty Op) (checked : Checked Ty) :
    Option (Instruction Ty Op × Checked Ty) :=
  match checked.frames with
  | [] => none
  | frame :: outer =>
    let frames := frame :: outer
    let stack := checked.stack
    match instruction with
    | .block args => do
        let (args, next) ← context.enterBlock .block frame outer args stack
        some (.block args, next)
    | .loop args => do
        let (args, next) ← context.enterBlock .loop frame outer args stack
        some (.loop args, next)
    | .if_ args => do
        let (_, rest) ← context.take frame context.i32 stack
        let (args, next) ← context.enterBlock .if_ frame outer args rest
        some (.if_ args, next)
    | .structuredElse => do
        let next ← context.validateElse frame outer stack
        some (.structuredElse, next)
    | .structuredEnd => do
        let next ← context.validateEndOfBlock frame outer stack
        some (.structuredEnd, next)
    | .br label _ => do
        let target ← frames[label]?
        let (_, rest) ← context.takeTypes frame target.labels stack
        some (.br label (target.initialSize != rest.length), stop frame outer rest)
    | .brIf label _ => do
        let target ← frames[label]?
        let (_, rest) ← context.take frame context.i32 stack
        let (_, rest) ← context.takeTypes frame target.labels rest
        let put := putTypes target.labels rest
        some (.brIf label (target.initialSize != put.length), ⟨frames, put⟩)
    | .brTable labels default_ => do
        let target ← frames[default_]?
        let (_, rest) ← context.take frame context.i32 stack
        let rest ← context.checkTableLabels frame frames target.labels.length labels rest
        let (_, rest) ← context.takeTypes frame target.labels rest
        some (.brTable labels default_, stop frame outer rest)
    | .return_ => do
        let first ← frames.getLast?
        let (_, rest) ← context.takeTypes frame first.type.results stack
        some (.return_, stop frame outer rest)
    | .unreachable => some (.unreachable, stop frame outer stack)
    | .call function => do
        let type ← context.functions[function]?
        let put ← context.callTypes frame type stack
        some (.call function, ⟨frames, put⟩)
    | .callIndirect index addressType => do
        let type ← (context.types[index]?).join
        let (_, rest) ← context.take frame addressType stack
        let put ← context.callTypes frame type rest
        some (.callIndirect index addressType, ⟨frames, put⟩)
    | .returnCall function => do
        let type ← context.functions[function]?
        let next ← context.tailCallTypes frame outer type stack
        some (.returnCall function, next)
    | .returnCallIndirect index addressType => do
        let type ← (context.types[index]?).join
        let (_, rest) ← context.take frame addressType stack
        let next ← context.tailCallTypes frame outer type rest
        some (.returnCallIndirect index addressType, next)
    | .other op => do
        let (taken, rest) ← takeMany frame (context.pops op) stack
        let put ← context.check op taken
        some (.other op, ⟨frames, put ++ rest⟩)
    | .endExpression => some (.endExpression, checked)

def Context.validateAll : List (Instruction Ty Op) → Checked Ty →
    Option (List (Instruction Ty Op) × Checked Ty)
  | [], checked => some ([], checked)
  | instruction :: rest, checked => do
      let (instruction, next) ← context.validate instruction checked
      let (rest, final) ← validateAll rest next
      some (instruction :: rest, final)

def Context.validateResults (type : FunctionType Ty) (final : Checked Ty) : Bool :=
  match final.frames with
  | frame :: _ =>
    match context.takeTypes frame type.results final.stack with
    | some (_, rest) => (putTypes type.results rest).length == type.results.length
    | none => false
  | [] => false

def Context.validateFunction (type : FunctionType Ty) (code : List (Instruction Ty Op)) :
    Option (List (Instruction Ty Op)) := do
  let (code, final) ← context.validateAll code ⟨[⟨type, .function, 0, false⟩], []⟩
  if context.validateResults type final then some code else none

end
end Ladybone.Wasm.Control
