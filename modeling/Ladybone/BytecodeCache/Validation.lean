import Ladybone.BytecodeCache.Executable
import Ladybone.Support.Checks

/-!
# Validation of cached bytecode

`validator.rs` walks the bytecode of one executable, and `bytecode_cache.rs` applies it to
every executable of a blob. The opcodes come from a table that stands for what `build.rs`
generates from `Bytecode.def`: for each opcode its size, the offsets and types of its fields,
a trailing array if there is one, and whether execution can go on behind it.

Offsets are numbers: a buffer's length was a `u32`, so `at as u32` loses nothing.
-/

namespace Ladybone.BytecodeCache

open Support.Codec Support.Checks

inductive ValidationErrorKind where
  | instructionMisaligned
  | unknownOpcode
  | truncatedInstruction
  | invalidLength
  | operandOutOfRange
  | operandInvalid
  | labelNotAtInstructionBoundary
  | identifierIndexOutOfRange
  | stringIndexOutOfRange
  | propertyKeyIndexOutOfRange
  | propertyLookupCacheIndexOutOfRange
  | globalVariableCacheIndexOutOfRange
  | templateObjectCacheIndexOutOfRange
  | objectShapeCacheIndexOutOfRange
  | objectPropertyIteratorCacheIndexOutOfRange
  | sharedFunctionDataIndexOutOfRange
  | classBlueprintIndexOutOfRange
  | enumOutOfRange
  | exceptionHandlerStartInvalid
  | exceptionHandlerEndInvalid
  | exceptionHandlerHandlerInvalid
  | exceptionHandlerRangeInvalid
  | sourceMapOffsetInvalid
  | environmentCoordinateCacheIndexOutOfRange
deriving DecidableEq

structure ValidationError where
  kind : ValidationErrorKind
  offset : Nat
  opcode : UInt8
deriving DecidableEq

structure ValidatorBounds where
  (numberOfRegisters numberOfLocals numberOfConstants numberOfArguments : UInt32)
  (identifierTableSize : UInt32)
  (stringTableSize propertyKeyTableSize propertyLookupCacheCount globalVariableCacheCount : UInt32)
  (environmentCoordinateCacheCount templateObjectCacheCount objectShapeCacheCount : UInt32)
  (objectPropertyIteratorCacheCount classBlueprintCount sharedFunctionDataCount : UInt32)
  (completionTypeVariantCount iteratorHintVariantCount environmentModeVariantCount : UInt32)
  (putKindVariantCount argumentsKindVariantCount functionNamePrefixVariantCount : UInt32)
deriving DecidableEq

structure ValidationContext where
  bounds : ValidatorBounds
  bytes : Bytes
  validOffsets : List Nat

/-! ## Fields -/

def invalidIndex : UInt32 := 0xFFFFFFFF

def noCacheIndex : UInt32 := 0xFFFFFFFF

def readU32 (bytes : Bytes) (start : Nat) : UInt32 :=
  UInt32.ofNat (fromLittleEndian ((bytes.drop start).take 4))

def readU8 (bytes : Bytes) (start : Nat) : UInt8 := bytes.getD start 0

abbrev Check := Except ValidationErrorKind Unit

def checkIndex (raw bound : UInt32) (problem : ValidationErrorKind) : Check :=
  ensure (raw < bound) problem

def checkRequiredIndex (raw bound : UInt32) (problem : ValidationErrorKind) : Check :=
  ensure (raw ≠ invalidIndex ∧ raw < bound) problem

def checkOptionalIndex (absent raw bound : UInt32) (problem : ValidationErrorKind) : Check :=
  if raw = absent then .ok () else ensure (raw < bound) problem

def saturatingAdd (left right : UInt32) : UInt32 :=
  UInt32.ofNat (min (left.toNat + right.toNat) (2 ^ 32 - 1))

def ValidatorBounds.operandLimit (bounds : ValidatorBounds) : UInt32 :=
  saturatingAdd (saturatingAdd (saturatingAdd bounds.numberOfRegisters bounds.numberOfLocals)
    bounds.numberOfConstants) bounds.numberOfArguments

def validateOperand (raw : UInt32) (context : ValidationContext) : Check :=
  if raw = invalidIndex then .error .operandInvalid
  else ensure (raw < context.bounds.operandLimit) .operandOutOfRange

def validateOptionalOperand (raw : UInt32) (context : ValidationContext) : Check :=
  if raw = invalidIndex then .ok () else validateOperand raw context

def validateLabel (address : UInt32) (context : ValidationContext) : Check :=
  ensure (address.toNat ∈ context.validOffsets) .labelNotAtInstructionBoundary

section
variable (raw : UInt32) (context : ValidationContext)

def validateIdentifierIndex : Check :=
  checkRequiredIndex raw context.bounds.identifierTableSize .identifierIndexOutOfRange

def validateOptionalIdentifierIndex : Check :=
  checkOptionalIndex invalidIndex raw context.bounds.identifierTableSize .identifierIndexOutOfRange

def validateStringIndex : Check :=
  checkRequiredIndex raw context.bounds.stringTableSize .stringIndexOutOfRange

def validateOptionalStringIndex : Check :=
  checkOptionalIndex invalidIndex raw context.bounds.stringTableSize .stringIndexOutOfRange

def validatePropertyKeyIndex : Check :=
  checkRequiredIndex raw context.bounds.propertyKeyTableSize .propertyKeyIndexOutOfRange

def validatePropertyLookupCacheIndex : Check :=
  checkOptionalIndex noCacheIndex raw context.bounds.propertyLookupCacheCount
    .propertyLookupCacheIndexOutOfRange

def validateGlobalVariableCacheIndex : Check :=
  checkOptionalIndex noCacheIndex raw context.bounds.globalVariableCacheCount
    .globalVariableCacheIndexOutOfRange

def validateEnvironmentCoordinateCacheIndex : Check :=
  checkIndex raw context.bounds.environmentCoordinateCacheCount
    .environmentCoordinateCacheIndexOutOfRange

def validateTemplateObjectCacheIndex : Check :=
  checkOptionalIndex noCacheIndex raw context.bounds.templateObjectCacheCount
    .templateObjectCacheIndexOutOfRange

def validateObjectShapeCacheIndex : Check :=
  checkOptionalIndex noCacheIndex raw context.bounds.objectShapeCacheCount
    .objectShapeCacheIndexOutOfRange

def validateObjectPropertyIteratorCacheIndex : Check :=
  checkOptionalIndex noCacheIndex raw context.bounds.objectPropertyIteratorCacheCount
    .objectPropertyIteratorCacheIndexOutOfRange

def validateSharedFunctionDataIndex : Check :=
  checkIndex raw context.bounds.sharedFunctionDataCount .sharedFunctionDataIndexOutOfRange

def validateClassBlueprintIndex : Check :=
  checkIndex raw context.bounds.classBlueprintCount .classBlueprintIndexOutOfRange

def validateCompletionType : Check :=
  checkIndex raw context.bounds.completionTypeVariantCount .enumOutOfRange

def validateIteratorHint : Check :=
  checkIndex raw context.bounds.iteratorHintVariantCount .enumOutOfRange

def validateEnvironmentMode : Check :=
  checkIndex raw context.bounds.environmentModeVariantCount .enumOutOfRange

def validatePutKind : Check :=
  checkIndex raw context.bounds.putKindVariantCount .enumOutOfRange

def validateArgumentsKind : Check :=
  checkIndex raw context.bounds.argumentsKindVariantCount .enumOutOfRange

def validateFunctionNamePrefix : Check :=
  checkIndex raw context.bounds.functionNamePrefixVariantCount .enumOutOfRange

end

/-- The field types of `Bytecode.def`; `unchecked` stands for those without a bound (`bool`,
`u64`, `Value`, `EnvironmentCoordinate`, `Builtin`, `RegexTableIndex` and other `u32`s). -/
inductive FieldType where
  | operand
  | optionalOperand
  | label
  | optionalLabel
  | identifierTableIndex
  | optionalIdentifierTableIndex
  | stringTableIndex
  | optionalStringTableIndex
  | propertyKeyTableIndex
  | propertyLookupCacheIndex
  | globalVariableCacheIndex
  | environmentCoordinateCacheIndex
  | templateObjectCacheIndex
  | objectShapeCacheIndex
  | objectPropertyIteratorCacheIndex
  | sharedFunctionDataIndex
  | classBlueprintIndex
  | completionType
  | iteratorHint
  | environmentMode
  | putKind
  | argumentsKind
  | functionNamePrefix
  | unchecked
deriving DecidableEq

/-- The check `build.rs` emits for a field of this type. -/
def validateField (context : ValidationContext) (type : FieldType) (position : Nat) : Check :=
  let raw := readU32 context.bytes position
  match type with
  | .operand => validateOperand raw context
  | .optionalOperand => validateOptionalOperand raw context
  | .label => validateLabel raw context
  | .optionalLabel =>
    -- the value is followed by a flag that says whether there is one
    if readU8 context.bytes (position + 4) ≠ 0 then validateLabel raw context else .ok ()
  | .identifierTableIndex => validateIdentifierIndex raw context
  | .optionalIdentifierTableIndex => validateOptionalIdentifierIndex raw context
  | .stringTableIndex => validateStringIndex raw context
  | .optionalStringTableIndex => validateOptionalStringIndex raw context
  | .propertyKeyTableIndex => validatePropertyKeyIndex raw context
  | .propertyLookupCacheIndex => validatePropertyLookupCacheIndex raw context
  | .globalVariableCacheIndex => validateGlobalVariableCacheIndex raw context
  | .environmentCoordinateCacheIndex => validateEnvironmentCoordinateCacheIndex raw context
  | .templateObjectCacheIndex => validateTemplateObjectCacheIndex raw context
  | .objectShapeCacheIndex => validateObjectShapeCacheIndex raw context
  | .objectPropertyIteratorCacheIndex => validateObjectPropertyIteratorCacheIndex raw context
  | .sharedFunctionDataIndex => validateSharedFunctionDataIndex raw context
  | .classBlueprintIndex => validateClassBlueprintIndex raw context
  | .completionType => validateCompletionType raw context
  | .iteratorHint => validateIteratorHint raw context
  | .environmentMode => validateEnvironmentMode raw context
  | .putKind => validatePutKind raw context
  | .argumentsKind => validateArgumentsKind raw context
  | .functionNamePrefix => validateFunctionNamePrefix raw context
  | .unchecked => .ok ()

/-! ## Instructions -/

structure ArrayField where
  element : FieldType
  (offset countOffset lengthOffset elementSize : Nat)
deriving DecidableEq

structure OpDef where
  size : Nat
  fields : List (FieldType × Nat)
  array : Option ArrayField
  /-- Whether execution can go on at the next instruction. -/
  continues : Bool
deriving DecidableEq

abbrev InstructionSet := List OpDef

variable (ops : InstructionSet)

def InstructionSet.find (opcode : UInt8) : Option OpDef :=
  ops[opcode.toNat]?

def instructionLengthFromBytes (opcode : UInt8) (bytes : Bytes)
    (start : Nat) : Except ValidationErrorKind Nat :=
  match ops.find opcode with
  | none => .error .unknownOpcode
  | some op =>
    match op.array with
    | none => .ok op.size
    | some array =>
      if start + array.lengthOffset + 4 > bytes.length then .error .truncatedInstruction
      else
        let raw := (readU32 bytes (start + array.lengthOffset)).toNat
        if raw < op.size then .error .invalidLength else .ok raw

def ArrayField.positions (array : ArrayField) (bytes : Bytes) (start : Nat) : List Nat :=
  (List.range (readU32 bytes (start + array.countOffset)).toNat).map fun index =>
    start + array.offset + index * array.elementSize

def validateArray (context : ValidationContext) (start : Nat) (array : ArrayField) : Check := do
  let length := (readU32 context.bytes (start + array.lengthOffset)).toNat
  let count := (readU32 context.bytes (start + array.countOffset)).toNat
  ensure (array.offset + count * array.elementSize ≤ length) .invalidLength
  each (validateField context array.element) (array.positions context.bytes start)

def validateInstruction (opcode : UInt8) (context : ValidationContext) (start : Nat) : Check :=
  match ops.find opcode with
  | none => .ok ()
  | some op => do
      each (fun (type, offset) => validateField context type (start + offset)) op.fields
      match op.array with
      | none => .ok ()
      | some array => validateArray context start array

/-! ## The three passes -/

def validateLength (bytes : Bytes) (start : Nat) : Except ValidationError Nat := do
  ensure (start % 8 = 0) { kind := .instructionMisaligned, offset := start, opcode := 0 }
  let opcode := readU8 bytes start
  ensure (opcode.toNat < ops.length) { kind := .unknownOpcode, offset := start, opcode }
  let size ← (instructionLengthFromBytes ops opcode bytes start).mapError fun kind =>
    { kind, offset := start, opcode }
  ensure (size ≠ 0 ∧ size % 8 = 0) { kind := .invalidLength, offset := start, opcode }
  ensure (start + size ≤ bytes.length) { kind := .truncatedInstruction, offset := start, opcode }
  .ok size

/-- The first pass: the starts of the instructions from an offset to the end. Every length is
positive, so the length of the buffer bounds the number of rounds. -/
def collectOffsets (ops : InstructionSet) (bytes : Bytes) :
    Nat → Nat → Except ValidationError (List Nat)
  | 0, _ => .ok []
  | rounds + 1, start =>
    if start < bytes.length then do
      let size ← validateLength ops bytes start
      let rest ← collectOffsets ops bytes rounds (start + size)
      .ok (start :: rest)
    else .ok []

def isInstructionOrEnd (bytes : Bytes) (validOffsets : List Nat) (offset : UInt32) : Bool :=
  offset.toNat = bytes.length || validOffsets.contains offset.toNat

def validateExceptionHandler (bytes : Bytes) (validOffsets : List Nat)
    (handler : ExceptionHandler) : Except ValidationError Unit := do
  ensure (isInstructionOrEnd bytes validOffsets handler.startOffset)
    { kind := .exceptionHandlerStartInvalid, offset := handler.startOffset.toNat, opcode := 0 }
  ensure (isInstructionOrEnd bytes validOffsets handler.endOffset)
    { kind := .exceptionHandlerEndInvalid, offset := handler.endOffset.toNat, opcode := 0 }
  ensure (handler.startOffset ≤ handler.endOffset)
    { kind := .exceptionHandlerRangeInvalid, offset := handler.startOffset.toNat, opcode := 0 }
  ensure (validOffsets.contains handler.handlerOffset.toNat)
    { kind := .exceptionHandlerHandlerInvalid, offset := handler.handlerOffset.toNat, opcode := 0 }

/-- `validate_bytecode`; cached bytecode comes without basic block offsets. -/
def validateBytecode (bytes : Bytes) (bounds : ValidatorBounds)
    (exceptionHandlers : List ExceptionHandler) (sourceMapOffsets : List UInt32) :
    Except ValidationError Unit := do
  let validOffsets ← collectOffsets ops bytes bytes.length 0
  each (fun offset =>
    (validateInstruction ops (readU8 bytes offset) { bounds, bytes, validOffsets } offset).mapError
      fun kind => { kind, offset, opcode := readU8 bytes offset }) validOffsets
  each (validateExceptionHandler bytes validOffsets) exceptionHandlers
  each (fun offset => ensure (isInstructionOrEnd bytes validOffsets offset)
    { kind := .sourceMapOffsetInvalid, offset := offset.toNat, opcode := 0 }) sourceMapOffsets

/-! ## Every executable of a blob -/

namespace DecodedRecordSequence

variable {α ε : Type}

def forEachFrom (problem : ε) (item : Reader α) (callback : α → Except ε Unit) :
    Nat → Input → Except ε Unit
  | 0, input => ensure (input.bytes.isEmpty) problem
  | count + 1, input => do
      let (value, rest) ← present problem (item.run input)
      callback value
      forEachFrom problem item callback count rest

def forEach (sequence : DecodedRecordSequence) (problem : ε) (item : Reader α)
    (callback : α → Except ε Unit) : Except ε Unit :=
  forEachFrom problem item callback sequence.count sequence.bytes.input

end DecodedRecordSequence

def DecodedExecutableRecord.bounds (executable : DecodedExecutableRecord) : ValidatorBounds where
  numberOfRegisters := executable.header.numberOfRegisters
  numberOfLocals := UInt32.ofNat executable.localVariables.count
  numberOfConstants := UInt32.ofNat executable.constants.count
  numberOfArguments := executable.header.numberOfArguments
  identifierTableSize := UInt32.ofNat executable.identifierTable.count
  stringTableSize := UInt32.ofNat executable.stringTable.count
  propertyKeyTableSize := UInt32.ofNat executable.propertyKeyTable.count
  propertyLookupCacheCount := executable.header.cacheCounters.propertyLookupCacheCount
  globalVariableCacheCount := executable.header.cacheCounters.globalVariableCacheCount
  environmentCoordinateCacheCount :=
    executable.header.cacheCounters.environmentCoordinateCacheCount
  templateObjectCacheCount := executable.header.cacheCounters.templateObjectCacheCount
  objectShapeCacheCount := executable.header.cacheCounters.objectShapeCacheCount
  objectPropertyIteratorCacheCount :=
    executable.header.cacheCounters.objectPropertyIteratorCacheCount
  classBlueprintCount := UInt32.ofNat executable.classBlueprints.count
  sharedFunctionDataCount := UInt32.ofNat executable.sharedFunctions.count
  completionTypeVariantCount := 6
  iteratorHintVariantCount := 2
  environmentModeVariantCount := 2
  putKindVariantCount := 5
  argumentsKindVariantCount := 2
  functionNamePrefixVariantCount := 3

/-- `validate_cached_bytecode`. A nested executable lies inside its parent's payload, so the
nesting is finite; `depth` bounds it. -/
def DecodedExecutableRecord.validateCachedBytecode (ops : InstructionSet) :
    Nat → DecodedExecutableRecord → Check
  | 0, _ => .error .invalidLength
  | depth + 1, executable => do
      let exceptionHandlers ←
        present .invalidLength (executable.exceptionHandlers.values ExceptionHandler.decode)
      let sourceMap ← present .invalidLength (executable.sourceMap.values SourceMapEntry.decode)
      (validateBytecode ops executable.bytecode.bytes executable.bounds exceptionHandlers
        (sourceMap.map (·.bytecodeOffset))).mapError (·.kind)
      executable.sharedFunctions.forEach .invalidLength DecodedFunctionRecord.decode
        fun function => do
          let nested ← present .invalidLength function.decodeExecutable
          validateCachedBytecode ops depth nested

def sourceSpanIsValid (start finish : UInt32) (sourceLength : Nat) : Bool :=
  start ≤ finish && finish.toNat ≤ sourceLength

def sourceRangeIsValid (offset length : UInt64) (sourceLength : Nat) : Bool :=
  offset.toNat ≤ sourceLength && length.toNat ≤ sourceLength - offset.toNat

def ClassElementRecord.indicesAreValid (element : ClassElementRecord)
    (sharedFunctionCount : Nat) : Bool :=
  let present := element.sharedFunctionDataIndex.any fun index =>
    index.toNat < sharedFunctionCount
  if element.kind = 0 ∨ element.kind = 1 ∨ element.kind = 2 ∨ element.kind = 4 then present
  else if element.kind = 3 then
    if element.hasInitializer && element.literalValueKind == .none then present
    else element.sharedFunctionDataIndex.all fun index => index.toNat < sharedFunctionCount
  else false

def ClassBlueprintRecord.indicesAreValid (blueprint : ClassBlueprintRecord)
    (sharedFunctionCount : Nat) : Bool :=
  blueprint.constructorSfdIndex.toNat < sharedFunctionCount &&
    blueprint.elements.all fun element => element.indicesAreValid sharedFunctionCount

namespace DecodedExecutableRecord

def sourceRangesAreValid (sourceLength : Nat) : Nat → DecodedExecutableRecord → Except Unit Unit
  | 0, _ => .error ()
  | depth + 1, executable => do
      executable.sharedFunctions.forEach () DecodedFunctionRecord.decode fun function => do
        ensure (sourceSpanIsValid function.header.sourceTextStart function.header.sourceTextEnd
          sourceLength) ()
        let nested ← present () function.decodeExecutable
        sourceRangesAreValid sourceLength depth nested
      executable.classBlueprints.forEach () ClassBlueprintRecord.decode fun blueprint =>
        ensure (sourceRangeIsValid blueprint.sourceTextOffset blueprint.sourceTextLength
          sourceLength) ()

def indicesAreValid (executable : DecodedExecutableRecord) : Except Unit Unit := do
  ensure (executable.header.lengthIdentifier.all fun index =>
    index.toNat < executable.propertyKeyTable.count) ()
  executable.classBlueprints.forEach () ClassBlueprintRecord.decode fun blueprint =>
    ensure (blueprint.indicesAreValid executable.sharedFunctions.count) ()

end DecodedExecutableRecord

def DecodedFunctionRecord.validateCachedBytecode (depth : Nat)
    (function : DecodedFunctionRecord) : Check := do
  let executable ← present .invalidLength function.decodeExecutable
  executable.validateCachedBytecode ops depth

def DecodedFunctionRecord.sourceRangesAreValid (sourceLength depth : Nat)
    (function : DecodedFunctionRecord) : Except Unit Unit := do
  ensure (sourceSpanIsValid function.header.sourceTextStart function.header.sourceTextEnd
    sourceLength) ()
  let executable ← present () function.decodeExecutable
  executable.sourceRangesAreValid sourceLength depth

namespace DecodedCacheBlob

def metadataIndicesAreValid (blob : DecodedCacheBlob) : Bool :=
  match blob.metadata with
  | .script _ => true
  | .module metadata =>
    blob.declarationFunctions.length == metadata.functionNames.length &&
      metadata.lexicalBindings.all fun binding =>
        binding.functionIndex < 0 || binding.functionIndex.toInt < blob.declarationFunctions.length

def sourceRangesAreValid (sourceLength depth : Nat) (blob : DecodedCacheBlob) :
    Except Unit Unit := do
  each (DecodedFunctionRecord.sourceRangesAreValid sourceLength depth) blob.declarationFunctions
  ensure blob.metadataIndicesAreValid ()
  blob.executable.sourceRangesAreValid sourceLength depth
  blob.executable.indicesAreValid

def validateCachedBytecode (depth : Nat) (blob : DecodedCacheBlob) : Check := do
  blob.executable.validateCachedBytecode ops depth
  each (DecodedFunctionRecord.validateCachedBytecode ops depth) blob.declarationFunctions

end DecodedCacheBlob
end Ladybone.BytecodeCache
