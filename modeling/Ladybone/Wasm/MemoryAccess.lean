import Ladybone.Wasm.Memory

/-!
# WebAssembly memory instructions

The handlers of the load, store, fill, copy and init instructions, what the validator
asks of them, and the access each one should make: its ranges computed as mathematical
integers from the full operands. The handlers narrow every address operand and count to
32 bits and add the static offset in 64, so they are exact as long as nothing is lost on
the way, or what is left is out of bounds as well.
-/

namespace Ladybone.Wasm.MemoryAccess

open Support.Overwrite Wasm.Memory

/-! ## Instructions -/

structure MemoryArgument where
  align : BitVec 32
  offset : BitVec 64
  memoryIndex : Nat
deriving DecidableEq

structure MemoryAndLaneArgument where
  memory : MemoryArgument
  lane : Nat
deriving DecidableEq

inductive LoadOpcode where
  | i32Load | i64Load | f32Load | f64Load
  | i32Load8S | i32Load8U | i32Load16S | i32Load16U
  | i64Load8S | i64Load8U | i64Load16S | i64Load16U | i64Load32S | i64Load32U
  | v128Load
  | v128Load8x8S | v128Load8x8U | v128Load16x4S | v128Load16x4U | v128Load32x2S | v128Load32x2U
  | v128Load8Splat | v128Load16Splat | v128Load32Splat | v128Load64Splat
  | v128Load32Zero | v128Load64Zero
deriving DecidableEq

inductive StoreOpcode where
  | i32Store | i64Store | f32Store | f64Store
  | i32Store8 | i32Store16 | i64Store8 | i64Store16 | i64Store32
  | v128Store
deriving DecidableEq

inductive LaneWidth where
  | lane8 | lane16 | lane32 | lane64
deriving DecidableEq

def LaneWidth.bits : LaneWidth → Nat
  | .lane8 => 8
  | .lane16 => 16
  | .lane32 => 32
  | .lane64 => 64

inductive Instruction where
  | load (opcode : LoadOpcode) (argument : MemoryArgument)
  | loadLane (width : LaneWidth) (argument : MemoryAndLaneArgument)
  | store (opcode : StoreOpcode) (argument : MemoryArgument)
  | storeLane (width : LaneWidth) (argument : MemoryAndLaneArgument)
  | memoryFill (memoryIndex : Nat)
  | memoryCopy (srcIndex dstIndex : Nat)
  | memoryInit (dataIndex memoryIndex : Nat)
deriving DecidableEq

/-! ## Values in memory -/

def fromLittleEndian : List Byte → Nat
  | [] => 0
  | byte :: rest => byte.toNat + 256 * fromLittleEndian rest

def toLittleEndian : Nat → Nat → List Byte
  | 0, _ => []
  | count + 1, value => BitVec.ofNat 8 value :: toLittleEndian count (value / 256)

@[simp] theorem length_to_little_endian (count value : Nat) :
    (toLittleEndian count value).length = count := by
  induction count generalizing value with
  | zero => rfl
  | succ _ ih => rw [toLittleEndian, List.length_cons, ih]

/-- `static_cast` of an integer of `from` bits to one of `to` bits. -/
def castBits (signed : Bool) (source target value : Nat) : BitVec target :=
  if signed then (BitVec.ofNat source value).signExtend target
  else (BitVec.ofNat source value).setWidth target

/-- `PushType`: the constructors of `Value` sign-extend 32 bits to 64 and keep the rest. -/
inductive PushType where
  | bits32 | bits64 | bits128
deriving DecidableEq

def PushType.push (push : PushType) (signed : Bool) (source value : Nat) : Value :=
  match push with
  | .bits32 => ((castBits signed source 32 value).signExtend 64).setWidth 128
  | .bits64 => (castBits signed source 64 value).setWidth 128
  | .bits128 => castBits signed source 128 value

/-- Which `load_and_push` template an opcode uses, with the template's parameters. -/
inductive LoadHandler where
  | loadAndPush (readBytes : Nat) (signed : Bool) (push : PushType)
  | loadAndPushMxn (laneBits lanes : Nat) (signed : Bool)
  | loadAndPushMSplat (bits : Nat)
  | loadAndPushZeroN (bits : Nat)
deriving DecidableEq

def LoadOpcode.handler : LoadOpcode → LoadHandler
  | .i32Load => .loadAndPush 4 true .bits32
  | .i64Load => .loadAndPush 8 true .bits64
  | .f32Load => .loadAndPush 4 false .bits32
  | .f64Load => .loadAndPush 8 false .bits64
  | .i32Load8S => .loadAndPush 1 true .bits32
  | .i32Load8U => .loadAndPush 1 false .bits32
  | .i32Load16S => .loadAndPush 2 true .bits32
  | .i32Load16U => .loadAndPush 2 false .bits32
  | .i64Load8S => .loadAndPush 1 true .bits64
  | .i64Load8U => .loadAndPush 1 false .bits64
  | .i64Load16S => .loadAndPush 2 true .bits64
  | .i64Load16U => .loadAndPush 2 false .bits64
  | .i64Load32S => .loadAndPush 4 true .bits64
  | .i64Load32U => .loadAndPush 4 false .bits64
  | .v128Load => .loadAndPush 16 false .bits128
  | .v128Load8x8S => .loadAndPushMxn 8 8 true
  | .v128Load8x8U => .loadAndPushMxn 8 8 false
  | .v128Load16x4S => .loadAndPushMxn 16 4 true
  | .v128Load16x4U => .loadAndPushMxn 16 4 false
  | .v128Load32x2S => .loadAndPushMxn 32 2 true
  | .v128Load32x2U => .loadAndPushMxn 32 2 false
  | .v128Load8Splat => .loadAndPushMSplat 8
  | .v128Load16Splat => .loadAndPushMSplat 16
  | .v128Load32Splat => .loadAndPushMSplat 32
  | .v128Load64Splat => .loadAndPushMSplat 64
  | .v128Load32Zero => .loadAndPushZeroN 32
  | .v128Load64Zero => .loadAndPushZeroN 64

def LoadHandler.width : LoadHandler → Nat
  | .loadAndPush readBytes _ _ => readBytes
  | .loadAndPushMxn laneBits lanes _ => laneBits * lanes / 8
  | .loadAndPushMSplat bits => bits / 8
  | .loadAndPushZeroN bits => bits / 8

def LoadOpcode.width (opcode : LoadOpcode) : Nat := opcode.handler.width

def extendLanes (laneBits : Nat) (signed : Bool) : Nat → List Byte → List Byte
  | 0, _ => []
  | lanes + 1, bytes =>
    toLittleEndian (laneBits / 4)
      (castBits signed laneBits (2 * laneBits)
        (fromLittleEndian (bytes.take (laneBits / 8)))).toNat ++
      extendLanes laneBits signed lanes (bytes.drop (laneBits / 8))

def LoadHandler.result : LoadHandler → List Byte → Value
  | .loadAndPush readBytes signed push, bytes =>
    push.push signed (8 * readBytes) (fromLittleEndian bytes)
  | .loadAndPushMxn laneBits lanes signed, bytes =>
    BitVec.ofNat 128 (fromLittleEndian (extendLanes laneBits signed lanes bytes))
  | .loadAndPushMSplat bits, bytes =>
    BitVec.ofNat 128 (fromLittleEndian (List.replicate (128 / bits) bytes).flatten)
  | .loadAndPushZeroN _, bytes => BitVec.ofNat 128 (fromLittleEndian bytes)

def LoadOpcode.result (opcode : LoadOpcode) (bytes : List Byte) : Value :=
  opcode.handler.result bytes

def insertLane (width : LaneWidth) (lane : Nat) (vector : Value) (bytes : List Byte) : Value :=
  BitVec.ofNat 128 (fromLittleEndian
    (overwrite (toLittleEndian 16 vector.toNat) (lane * width.bits / 8) bytes))

def StoreOpcode.widths : StoreOpcode → Nat × Nat
  | .i32Store => (4, 4)
  | .i64Store => (8, 8)
  | .f32Store => (4, 4)
  | .f64Store => (8, 8)
  | .i32Store8 => (4, 1)
  | .i32Store16 => (4, 2)
  | .i64Store8 => (8, 1)
  | .i64Store16 => (8, 2)
  | .i64Store32 => (8, 4)
  | .v128Store => (16, 16)

def StoreOpcode.bytes (opcode : StoreOpcode) (value : Value) : List Byte :=
  toLittleEndian opcode.widths.2 (value.toNat % 2 ^ (8 * opcode.widths.1))

def laneBytes (width : LaneWidth) (lane : Nat) (vector : Value) : List Byte :=
  toLittleEndian (width.bits / 8) (vector.toNat / 2 ^ (lane * width.bits / 8 * 8))

/-! ## Validation -/

structure Context where
  memories : List Limits
  datas : Nat
  dataCount : Option Nat
deriving DecidableEq

inductive ValidationError where
  | invalid (name : String)
  | outOfBounds (name : String) (value : Int) (min max : Nat)
deriving DecidableEq

/-- What an instruction takes from the type stack, top first, and what it puts there. -/
structure Signature where
  (takes puts : List ValueType)
deriving DecidableEq

def validateMemoryIndex (context : Context) (index : Nat) : Except ValidationError Limits :=
  match context.memories[index]? with
  | some limits => .ok limits
  | none => .error (.invalid "MemoryIndex")

def validateDataIndex (context : Context) (index : Nat) : Except ValidationError Unit :=
  if index < context.datas then .ok () else .error (.invalid "DataIndex")

def shiftOne (wide : Bool) (align : BitVec 32) : Int :=
  if wide then ((1#64) <<< (align.toNat % 64)).toNat
  else ((1#32) <<< (align.toNat % 32)).toInt

def validateAlignment (wide : Bool) (align : BitVec 32) (width : Nat) :
    Except ValidationError Unit :=
  if 64 < align.toNat then .error (.outOfBounds "memory op alignment value" align.toNat 0 64)
  else if (width : Int) < shiftOne wide align then
    .error (.outOfBounds "memory op alignment" (shiftOne wide align) 0 width)
  else .ok ()

/-- `take_memory_address`: the type of the address operand; only 32-bit memories bound the
static offset. -/
def takeMemoryAddress (limits : Limits) (argument : MemoryArgument) :
    Except ValidationError ValueType :=
  match limits.addressType with
  | .i64 => .ok .i64
  | .i32 =>
    if 2 ^ 32 - 1 < argument.offset.toNat then
      .error (.outOfBounds "memory op offset" argument.offset.toNat 0 (2 ^ 32 - 1))
    else .ok .i32

/-- The address operand of an access: some instructions ask the memory for its type, the
others take an `i32` without looking at the memory or the offset. -/
def addressOperand (asksMemory : Bool) (limits : Limits) (argument : MemoryArgument) :
    Except ValidationError ValueType :=
  if asksMemory then takeMemoryAddress limits argument else .ok .i32

def LoadOpcode.asksMemory (opcode : LoadOpcode) : Bool :=
  match opcode.handler with
  | .loadAndPush _ _ _ => true
  | .loadAndPushMxn _ _ _ => false
  | .loadAndPushMSplat _ => false
  | .loadAndPushZeroN _ => true

def LoadOpcode.wideShift (opcode : LoadOpcode) : Bool :=
  match opcode.handler with
  | .loadAndPush _ _ _ => true
  | _ => false

def LoadOpcode.puts : LoadOpcode → ValueType
  | .i32Load | .i32Load8S | .i32Load8U | .i32Load16S | .i32Load16U => .i32
  | .i64Load | .i64Load8S | .i64Load8U | .i64Load16S | .i64Load16U | .i64Load32S
  | .i64Load32U => .i64
  | .f32Load => .f32
  | .f64Load => .f64
  | _ => .v128

def StoreOpcode.asksMemory (opcode : StoreOpcode) : Bool := opcode != .v128Store

def StoreOpcode.takes : StoreOpcode → ValueType
  | .i32Store | .i32Store8 | .i32Store16 => .i32
  | .i64Store | .i64Store8 | .i64Store16 | .i64Store32 => .i64
  | .f32Store => .f32
  | .f64Store => .f64
  | .v128Store => .v128

def validateLane (width : LaneWidth) (lane : Nat) : Except ValidationError Unit :=
  if 128 / width.bits ≤ lane then .error (.outOfBounds "lane index" lane 0 (128 / width.bits))
  else .ok ()

def validateInstruction (context : Context) : Instruction → Except ValidationError Signature
  | .load opcode argument => do
      let limits ← validateMemoryIndex context argument.memoryIndex
      validateAlignment opcode.wideShift argument.align opcode.width
      let address ← addressOperand opcode.asksMemory limits argument
      .ok ⟨[address], [opcode.puts]⟩
  | .loadLane width argument => do
      validateLane width argument.lane
      let limits ← validateMemoryIndex context argument.memory.memoryIndex
      validateAlignment false argument.memory.align (width.bits / 8)
      let address ← addressOperand true limits argument.memory
      .ok ⟨[.v128, address], [.v128]⟩
  | .store opcode argument => do
      let limits ← validateMemoryIndex context argument.memoryIndex
      validateAlignment true argument.align opcode.widths.2
      let address ← addressOperand opcode.asksMemory limits argument
      .ok ⟨[opcode.takes, address], []⟩
  | .storeLane width argument => do
      validateLane width argument.lane
      let limits ← validateMemoryIndex context argument.memory.memoryIndex
      validateAlignment false argument.memory.align (width.bits / 8)
      let address ← addressOperand true limits argument.memory
      .ok ⟨[.v128, address], []⟩
  | .memoryFill memoryIndex => do
      let limits ← validateMemoryIndex context memoryIndex
      .ok ⟨[limits.addressValueType, .i32, limits.addressValueType], []⟩
  | .memoryCopy srcIndex dstIndex => do
      let source ← validateMemoryIndex context srcIndex
      let destination ← validateMemoryIndex context dstIndex
      let size := if source.addressValueType = .i32 ∨ destination.addressValueType = .i32
        then ValueType.i32 else ValueType.i64
      .ok ⟨[size, source.addressValueType, destination.addressValueType], []⟩
  | .memoryInit dataIndex memoryIndex => do
      if context.dataCount.isNone then
        .error (.invalid "memory.init, requires data count section")
      else
        let limits ← validateMemoryIndex context memoryIndex
        validateDataIndex context dataIndex
        .ok ⟨[.i32, .i32, limits.addressValueType], []⟩

/-! ## Handlers

`sources` are the operands in the order the validator takes them, top of the stack first.
-/

section
variable (module : ModuleInstance) (store : Store) (sources : Nat → Value)

def memoryAddress (index : Nat) : Nat := module.memories.getD index 0

def dataAddress (index : Nat) : Nat := module.datas.getD index 0

/-- The common part of the `load_and_push` templates: both sums are taken in 64 bits, and
so is the check of the slice that follows. -/
def loadWith (argument : MemoryArgument) (base width : Nat) (result : List Byte → Value) :
    Outcome :=
  match store.memories[memoryAddress module argument.memoryIndex]? with
  | none => .escaped
  | some memory =>
    let instanceAddress := (base + argument.offset.toNat) % 2 ^ 64
    if memory.size < (instanceAddress + width) % 2 ^ 64 then
      .trapped "Memory access out of bounds" store
    else if instanceAddress + width ≤ memory.size then
      .continues store (some (result (window memory.data instanceAddress width)))
    else .escaped

def loadAndPush (opcode : LoadOpcode) (argument : MemoryArgument) : Outcome :=
  loadWith module store argument (sources 0).toU32 opcode.width opcode.result

def loadAndPushLaneN (width : LaneWidth) (argument : MemoryAndLaneArgument) : Outcome :=
  loadWith module store argument.memory (sources 1).toU32 (width.bits / 8)
    (insertLane width argument.lane (sources 0))

def storeAt (argument : MemoryArgument) (bytes : List Byte) (base : Nat) : Outcome :=
  store.storeToMemory (memoryAddress module argument.memoryIndex)
    ((base + argument.offset.toNat) % 2 ^ 64) bytes

def popAndStore (opcode : StoreOpcode) (argument : MemoryArgument) : Outcome :=
  storeAt module store argument (opcode.bytes (sources 0)) (sources 1).toU32

def popAndStoreLaneN (width : LaneWidth) (argument : MemoryAndLaneArgument) : Outcome :=
  storeAt module store argument.memory (laneBytes width argument.lane (sources 0)) (sources 1).toU32

def memoryFill (memoryIndex : Nat) : Outcome :=
  let address := memoryAddress module memoryIndex
  let count := (sources 0).toU32
  let value : Byte := BitVec.ofNat 8 (sources 1).toU32
  let destinationOffset := (sources 2).toU32
  if 2 ^ 64 ≤ destinationOffset + count ∨
      store.memorySize address < destinationOffset + count then
    .trapped ("!checked_end.has_overflow() && static_cast<size_t>(checked_end.value()) <= " ++
      "instance->data().size()") store
  else if count = 0 then .continues store none
  else store.storeEach address destinationOffset (fun _ _ => some value) (List.range count)

def saturatingAdd (left right : Nat) : Nat := min (left + right) (2 ^ 64 - 1)

/-- The copy walks away from the overlap; the source index is a 32-bit sum. -/
def memoryCopy (srcIndex dstIndex : Nat) : Outcome :=
  let sourceAddress := memoryAddress module srcIndex
  let destinationAddress := memoryAddress module dstIndex
  let count := (sources 0).toU32
  let sourceOffset := (sources 1).toU32
  let destinationOffset := (sources 2).toU32
  let value := fun (now : Store) offset =>
    now.byteAt sourceAddress ((sourceOffset + offset) % 2 ^ 32)
  if store.memorySize sourceAddress < saturatingAdd sourceOffset count then
    .trapped "source_position <= source_instance->data().size()" store
  else if store.memorySize destinationAddress < saturatingAdd destinationOffset count then
    .trapped "destination_position <= destination_instance->data().size()" store
  else if count = 0 then .continues store none
  else if destinationOffset ≤ sourceOffset then
    store.storeEach destinationAddress destinationOffset value (List.range count)
  else
    store.storeEach destinationAddress destinationOffset value (List.range count).reverse

def memoryInit (dataIndex memoryIndex : Nat) : Outcome :=
  let data := dataAddress module dataIndex
  let address := memoryAddress module memoryIndex
  let count := (sources 0).toU32
  let sourceOffset := (sources 1).toU32
  let destinationOffset := (sources 2).toU32
  if store.dataSize data < saturatingAdd sourceOffset count then
    .trapped "source_position <= data.data().size()" store
  else if store.memorySize address < saturatingAdd destinationOffset count then
    .trapped "destination_position <= memory->data().size()" store
  else if count = 0 then .continues store none
  else
    store.storeEach address destinationOffset
      (fun now offset => now.dataByte data (sourceOffset + offset)) (List.range count)

def execute : Instruction → Outcome
  | .load opcode argument => loadAndPush module store sources opcode argument
  | .loadLane width argument => loadAndPushLaneN module store sources width argument
  | .store opcode argument => popAndStore module store sources opcode argument
  | .storeLane width argument => popAndStoreLaneN module store sources width argument
  | .memoryFill memoryIndex => memoryFill module store sources memoryIndex
  | .memoryCopy srcIndex dstIndex => memoryCopy module store sources srcIndex dstIndex
  | .memoryInit dataIndex memoryIndex => memoryInit module store sources dataIndex memoryIndex

end

/-! ## The intended access -/

inductive Region where
  | memory (address : Nat)
  | data (address : Nat)
deriving DecidableEq

def regionSize (store : Store) : Region → Nat
  | .memory address => store.memorySize address
  | .data address => store.dataSize address

structure Range where
  region : Region
  (start length : Nat)
deriving DecidableEq

/-- An empty range lies inside as long as it does not start behind the end. -/
def Range.Inside (store : Store) (range : Range) : Prop :=
  range.start + range.length ≤ regionSize store range.region

instance (store : Store) (range : Range) : Decidable (range.Inside store) :=
  inferInstanceAs (Decidable (_ ≤ _))

structure Update where
  (address start length : Nat)
  byte : Nat → Option Byte

structure Access where
  ranges : List Range
  result : Option Value
  update : Option Update

def Access.Performed (access : Access) (before after : Store) : Prop :=
  match access.update with
  | none => after = before
  | some update =>
    before.Replaced after update.address update.start (· < update.length) update.byte

/-- A trap exactly when a range does not fit, and nothing written then; otherwise the
intended result and the intended bytes, and no other byte changed. -/
structure Access.Exact (access : Access) (store : Store) (outcome : Outcome) : Prop where
  traps : (∃ range ∈ access.ranges, ¬ range.Inside store) →
    ∃ reason, outcome = .trapped reason store
  acts : (∀ range ∈ access.ranges, range.Inside store) →
    ∃ after, outcome = .continues after access.result ∧ access.Performed store after

section
variable (module : ModuleInstance) (store : Store) (takes : List ValueType) (sources : Nat → Value)

/-- An operand as the unsigned integer of the type the validator has given it. -/
def fullOperand (index : Nat) : Nat :=
  match takes[index]? with
  | some .i64 => (sources index).toU64
  | _ => (sources index).toU32

def readBytes (address start length : Nat) : List Byte :=
  match store.memories[address]? with
  | some memory => window memory.data start length
  | none => []

def intendedLoad (argument : MemoryArgument) (base width : Nat) (result : List Byte → Value) :
    Access :=
  let address := memoryAddress module argument.memoryIndex
  let start := base + argument.offset.toNat
  { ranges := [⟨.memory address, start, width⟩]
    result := some (result (readBytes store address start width))
    update := none }

def intendedStore (argument : MemoryArgument) (base : Nat) (bytes : List Byte) : Access :=
  let address := memoryAddress module argument.memoryIndex
  let start := base + argument.offset.toNat
  { ranges := [⟨.memory address, start, bytes.length⟩]
    result := none
    update := some ⟨address, start, bytes.length, fun offset => bytes[offset]?⟩ }

def intended : Instruction → Access
  | .load opcode argument =>
    intendedLoad module store argument (fullOperand takes sources 0) opcode.width opcode.result
  | .loadLane width argument =>
    intendedLoad module store argument.memory (fullOperand takes sources 1) (width.bits / 8)
      (insertLane width argument.lane (sources 0))
  | .store opcode argument =>
    intendedStore module argument (fullOperand takes sources 1) (opcode.bytes (sources 0))
  | .storeLane width argument =>
    intendedStore module argument.memory (fullOperand takes sources 1)
      (laneBytes width argument.lane (sources 0))
  | .memoryFill memoryIndex =>
    let address := memoryAddress module memoryIndex
    let count := fullOperand takes sources 0
    let start := fullOperand takes sources 2
    { ranges := [⟨.memory address, start, count⟩]
      result := none
      update := some ⟨address, start, count, fun _ => some ((sources 1).setWidth 8)⟩ }
  | .memoryCopy srcIndex dstIndex =>
    let source := memoryAddress module srcIndex
    let address := memoryAddress module dstIndex
    let count := fullOperand takes sources 0
    let first := fullOperand takes sources 1
    let start := fullOperand takes sources 2
    { ranges := [⟨.memory source, first, count⟩, ⟨.memory address, start, count⟩]
      result := none
      update := some ⟨address, start, count, fun offset =>
        store.byteAt source (first + offset)⟩ }
  | .memoryInit dataIndex memoryIndex =>
    let data := dataAddress module dataIndex
    let address := memoryAddress module memoryIndex
    let count := fullOperand takes sources 0
    let first := fullOperand takes sources 1
    let start := fullOperand takes sources 2
    { ranges := [⟨.data data, first, count⟩, ⟨.memory address, start, count⟩]
      result := none
      update := some ⟨address, start, count, fun offset =>
        store.dataByte data (first + offset)⟩ }

/-! ## When the handlers make it -/

/-- The bounds test a handler makes on what it has left of the operands. -/
def Accepts : Instruction → Prop
  | .load opcode argument =>
    (((sources 0).toU32 + argument.offset.toNat) % 2 ^ 64 + opcode.width) % 2 ^ 64 ≤
      store.memorySize (memoryAddress module argument.memoryIndex)
  | .loadLane width argument =>
    (((sources 1).toU32 + argument.memory.offset.toNat) % 2 ^ 64 + width.bits / 8) % 2 ^ 64 ≤
      store.memorySize (memoryAddress module argument.memory.memoryIndex)
  | .store opcode argument =>
    ((sources 1).toU32 + argument.offset.toNat) % 2 ^ 64 + opcode.widths.2 ≤
      store.memorySize (memoryAddress module argument.memoryIndex)
  | .storeLane width argument =>
    ((sources 1).toU32 + argument.memory.offset.toNat) % 2 ^ 64 + width.bits / 8 ≤
      store.memorySize (memoryAddress module argument.memory.memoryIndex)
  | .memoryFill memoryIndex =>
    (sources 2).toU32 + (sources 0).toU32 ≤ store.memorySize (memoryAddress module memoryIndex)
  | .memoryCopy srcIndex dstIndex =>
    (sources 1).toU32 + (sources 0).toU32 ≤ store.memorySize (memoryAddress module srcIndex) ∧
    (sources 2).toU32 + (sources 0).toU32 ≤ store.memorySize (memoryAddress module dstIndex)
  | .memoryInit dataIndex memoryIndex =>
    (sources 1).toU32 + (sources 0).toU32 ≤ store.dataSize (dataAddress module dataIndex) ∧
    (sources 2).toU32 + (sources 0).toU32 ≤ store.memorySize (memoryAddress module memoryIndex)

/-- No operand has bits above the 32 the handler keeps, and the end of the range is below
2^64. -/
def Lossless : Instruction → Prop
  | .load opcode argument =>
    fullOperand takes sources 0 < 2 ^ 32 ∧
      fullOperand takes sources 0 + argument.offset.toNat + opcode.width < 2 ^ 64
  | .loadLane width argument =>
    fullOperand takes sources 1 < 2 ^ 32 ∧
      fullOperand takes sources 1 + argument.memory.offset.toNat + width.bits / 8 < 2 ^ 64
  | .store opcode argument =>
    fullOperand takes sources 1 < 2 ^ 32 ∧
      fullOperand takes sources 1 + argument.offset.toNat + opcode.widths.2 < 2 ^ 64
  | .storeLane width argument =>
    fullOperand takes sources 1 < 2 ^ 32 ∧
      fullOperand takes sources 1 + argument.memory.offset.toNat + width.bits / 8 < 2 ^ 64
  | .memoryFill _ =>
    fullOperand takes sources 0 < 2 ^ 32 ∧ fullOperand takes sources 2 < 2 ^ 32
  | .memoryCopy _ _ | .memoryInit _ _ =>
    fullOperand takes sources 0 < 2 ^ 32 ∧ fullOperand takes sources 1 < 2 ^ 32 ∧
      fullOperand takes sources 2 < 2 ^ 32

instance : DecidablePred (Accepts module store sources)
  | .load _ _ | .loadLane _ _ | .store _ _ | .storeLane _ _ | .memoryFill _ =>
    inferInstanceAs (Decidable (_ ≤ _))
  | .memoryCopy _ _ | .memoryInit _ _ => inferInstanceAs (Decidable (_ ∧ _))

instance : DecidablePred (Lossless takes sources)
  | .load _ _ | .loadLane _ _ | .store _ _ | .storeLane _ _ | .memoryFill _ | .memoryCopy _ _
  | .memoryInit _ _ => inferInstanceAs (Decidable (_ ∧ _))

end
end Ladybone.Wasm.MemoryAccess
