import Ladybone.Wasm.Control.Validator

/-!
# The interpreter's labels

The control instructions of the bytecode interpreter over one value stack and one label stack
that all calls share. Lists start with the last entry. Calls push an activation and a label,
returning pops them; operations, host functions and the lookup of an indirect callee are
opaque.
-/

namespace Ladybone.Wasm.Control

structure Label where
  (arity continuation stackHeight : Nat)
deriving DecidableEq

/-- A function of some module: its validated body, and where the functions it can name are. -/
structure WasmFunction (Ty Op : Type) where
  type : FunctionType Ty
  types : List (Option (FunctionType Ty))
  addresses : List Nat
  code : List (Instruction Ty Op)

inductive Function (Ty Op : Type) where
  | wasm (function : WasmFunction Ty Op)
  | host (type : FunctionType Ty)

def Function.type {Ty Op : Type} : Function Ty Op → FunctionType Ty
  | wasm function => function.type
  | host type => type

/-- What the interpreter computes with: the functions by address, and the meaning of everything
that does not touch labels. -/
structure Runtime (Ty Op Value World : Type) where
  functions : List (Function Ty Op)
  pops : Op → Nat
  perform : Op → List Value → World → Option (List Value × World)
  hostCall : Nat → List Value → World → Option (List Value × World)
  /-- The address an indirect call finds, if it does not trap. -/
  resolve : Value → World → Option Nat
  setFrame : Nat → List Value → World → World
  unwind : World → World
  isZero : Value → Bool
  toU32 : Value → Nat
  /-- The compiled list has `synthetic_br_nostack` where no adjustment is needed. -/
  nostack : Bool

structure Activation (Ty Op : Type) where
  function : WasmFunction Ty Op
  (ip labelIndex : Nat)

structure Machine (Ty Op Value World : Type) where
  frame : Activation Ty Op
  callers : List (Activation Ty Op)
  labels : List Label
  values : List Value
  world : World

inductive Outcome (Ty Op Value World : Type) where
  | running (machine : Machine Ty Op Value World)
  | finished (labels : List Label) (values : List Value) (world : World)
  | trapped
  | crashed

section
variable {Ty Op Value World : Type} [DecidableEq Ty] (runtime : Runtime Ty Op Value World)
  (machine : Machine Ty Op Value World)

def Machine.goto (ip : Nat) : Machine Ty Op Value World :=
  { machine with frame := { machine.frame with ip } }

def Machine.advance : Outcome Ty Op Value World :=
  .running (machine.goto (machine.frame.ip + 1))

def keepTop (label : Label) (values : List Value) : List Value :=
  values.take label.arity ++ values.drop (values.length - label.stackHeight)

/-- `branch_to_label`; the handler goes on behind the position it returns. -/
def branchToLabel (needsStackAdjustment : Bool) (index : Nat)
    (machine : Machine Ty Op Value World) : Outcome Ty Op Value World :=
  let labels := machine.labels.drop index
  match labels with
  | [] => .crashed
  | label :: _ =>
    .running ({ machine with
      labels
      values := if needsStackAdjustment then keepTop label machine.values
        else machine.values }.goto label.continuation)

/-- `execute` behind `interpret`: results stay on top, one label is popped if there is one, and
the caller goes on behind its call. -/
def leave : Outcome Ty Op Value World :=
  let arity := machine.frame.function.type.results.length
  let values := machine.values.take arity ++ machine.values.drop arity
  let labels := machine.labels.tail
  let world := runtime.unwind machine.world
  match machine.callers with
  | [] => .finished labels values world
  | caller :: callers =>
    .running ⟨{ caller with ip := caller.ip + 1 }, callers, labels, values, world⟩

def entered (function : WasmFunction Ty Op) (callers : List (Activation Ty Op))
    (labels : List Label) (values : List Value) (world : World) : Machine Ty Op Value World where
  frame := ⟨function, 0, labels.length⟩
  callers
  labels := ⟨function.type.results.length, function.code.length - 1, values.length⟩ :: labels
  values
  world

def callAddress (address : Nat) (machine : Machine Ty Op Value World) : Outcome Ty Op Value World :=
  match runtime.functions[address]? with
  | none => .trapped
  | some callee =>
    let count := callee.type.parameters.length
    let arguments := machine.values.take count
    let values := machine.values.drop count
    match callee with
    | .wasm function =>
      .running (entered function (machine.frame :: machine.callers) machine.labels values
        (runtime.setFrame address arguments machine.world))
    | .host _ =>
      match runtime.hostCall address arguments machine.world with
      | none => .trapped
      | some (results, world) => { machine with values := results ++ values, world }.advance

/-- `call_address` for a tail call: the labels of the current call are gone already. -/
def tailCallAddress (address : Nat) (machine : Machine Ty Op Value World) :
    Outcome Ty Op Value World :=
  let labels := machine.labels.drop (machine.labels.length - machine.frame.labelIndex)
  match runtime.functions[address]? with
  | none => .trapped
  | some callee =>
    let count := callee.type.parameters.length
    let arguments := machine.values.take count
    let values := machine.values.drop count
    match callee with
    | .wasm function =>
      .running (entered function machine.callers labels values
        (runtime.setFrame address arguments (runtime.unwind machine.world)))
    | .host _ =>
      match runtime.hostCall address arguments machine.world with
      | none => .trapped
      | some (results, world) =>
        leave runtime { machine with labels, values := results ++ values, world }

def indirectCallee (index : Nat) (value : Value) (machine : Machine Ty Op Value World) :
    Option Nat := do
  let expected ← (machine.frame.function.types[index]?).join
  let address ← runtime.resolve value machine.world
  let callee ← runtime.functions[address]?
  if callee.type = expected then some address else none

def returnFrom : Outcome Ty Op Value World :=
  let labels := machine.labels.drop (machine.labels.length - (machine.frame.labelIndex + 1))
  match labels with
  | [] => .crashed
  | label :: _ =>
    let values :=
      if label.stackHeight + label.arity < machine.values.length then
        keepTop label machine.values
      else machine.values
    leave runtime { machine with labels, values }

def enterIf (args : StructuredArgs Ty) (value : Value) (machine : Machine Ty Op Value World) :
    Outcome Ty Op Value World :=
  let label : Label := ⟨args.arity, args.endIp, machine.values.length - args.parameterCount⟩
  let entered := { machine with labels := label :: machine.labels }
  if runtime.isZero value then
    match args.elseIp with
    | some ip => .running (entered.goto ip)
    | none => .running (machine.goto (args.endIp + 1))
  else entered.advance

def step : Outcome Ty Op Value World :=
  match machine.frame.function.code[machine.frame.ip]? with
  | none => .crashed
  | some (.block args) =>
    { machine with
      labels := ⟨args.arity, args.endIp, machine.values.length - args.parameterCount⟩ ::
        machine.labels }.advance
  | some (.loop args) =>
    { machine with
      labels := ⟨args.parameterCount, machine.frame.ip + 1,
        machine.values.length - args.parameterCount⟩ :: machine.labels }.advance
  | some (.if_ args) =>
    match machine.values with
    | value :: values => enterIf runtime args value { machine with values }
    | [] => .crashed
  | some .structuredEnd =>
    match machine.labels with
    | _ :: labels => { machine with labels }.advance
    | [] => .crashed
  | some .structuredElse =>
    match machine.labels with
    | label :: labels => .running ({ machine with labels }.goto label.continuation)
    | [] => .crashed
  | some (.br label hasStackAdjustment) =>
    branchToLabel (!runtime.nostack || hasStackAdjustment) label machine
  | some (.brIf label hasStackAdjustment) =>
    match machine.values with
    | value :: values =>
      if runtime.isZero value then { machine with values }.advance
      else
        branchToLabel (!runtime.nostack || hasStackAdjustment) label { machine with values }
    | [] => .crashed
  | some (.brTable labels default_) =>
    match machine.values with
    | value :: values =>
      branchToLabel true ((labels[runtime.toU32 value]?).getD default_) { machine with values }
    | [] => .crashed
  | some .return_ => returnFrom runtime machine
  | some .unreachable => .trapped
  | some (.call function) =>
    match machine.frame.function.addresses[function]? with
    | some address => callAddress runtime address machine
    | none => .crashed
  | some (.callIndirect index _) =>
    match machine.values with
    | value :: values =>
      match indirectCallee runtime index value machine with
      | some address => callAddress runtime address { machine with values }
      | none => .trapped
    | [] => .crashed
  | some (.returnCall function) =>
    match machine.frame.function.addresses[function]? with
    | some address => tailCallAddress runtime address machine
    | none => .crashed
  | some (.returnCallIndirect index _) =>
    match machine.values with
    | value :: values =>
      match indirectCallee runtime index value machine with
      | some address => tailCallAddress runtime address { machine with values }
      | none => .trapped
    | [] => .crashed
  | some (.other op) =>
    match runtime.perform op (machine.values.take (runtime.pops op)) machine.world with
    | none => .trapped
    | some (results, world) =>
      { machine with
        values := results ++ machine.values.drop (runtime.pops op)
        world }.advance
  | some .endExpression => leave runtime machine

end
end Ladybone.Wasm.Control
