import Ladybone.BytecodeCache.Records

/-!
# Executables and the cache blob

An executable holds the functions it creates, each with an executable of its own. Tables and
nested executables are written by an encoder of their own and embedded as payloads; the
decoder leaves them in the blob as ranges and reads them later, at their absolute offset.
-/

namespace Ladybone.BytecodeCache

open Support.Codec

def magic : Bytes := [0x4C, 0x42, 0x4A, 0x53, 0x42, 0x43, 0, 0]

def formatVersion : UInt32 := 12

def sourceHashSize : Nat := 32

def bytecodeAlignment : Nat := 8

abbrev SourceHash := { hash : Bytes // hash.length = sourceHashSize }

/-! ## Record sequences -/

structure DecodedRecordSequence where
  count : Nat
  bytes : Payload
deriving DecidableEq

namespace DecodedRecordSequence

def encodeWithAlignment (alignment count : Nat) (records : Writer) : Writer :=
  .all [.size count, .all [.alignBytesPayloadTo alignment, .embedded records]]

def encode {α : Type} (items : List α) (item : α → Writer) : Writer :=
  encodeWithAlignment 2 items.length (.all (items.map item))

def decodeWithAlignment (alignment : Nat) : Reader DecodedRecordSequence := do
  let count ← Reader.size
  let bytes ← (do Reader.alignBytesPayloadTo alignment; Payload.counted count)
  pure { count, bytes }

def decode : Reader DecodedRecordSequence := decodeWithAlignment 2

def values {α : Type} (sequence : DecodedRecordSequence) (item : Reader α) : Option (List α) :=
  (Reader.times item sequence.count).whole sequence.bytes.input

end DecodedRecordSequence

/-- The constants are read from the start of their payload, wherever it stands. -/
structure DecodedConstantTable where
  count : Nat
  bytes : Payload
deriving DecidableEq

def encodeConstantTable (constants : List ConstantValue) : Writer :=
  .all [.size constants.length, .embedded (.all (constants.map ConstantValue.encode))]

def DecodedConstantTable.decode : Reader DecodedConstantTable := do
  let count ← Reader.size
  let bytes ← Payload.counted count
  pure { count, bytes }

def DecodedConstantTable.values (table : DecodedConstantTable) : Option (List ConstantValue) :=
  (Reader.times ConstantValue.decode table.count).whole ⟨table.bytes.bytes, 0⟩

/-! ## Executables and functions -/

structure FunctionSfdMetadata where
  (usesThis thisValueNeedsEnvironmentResolution functionEnvironmentNeeded : Bool)
  (functionEnvironmentBindingsCount varEnvironmentBindingsCount : UInt64)
  (mightNeedArguments containsEval : Bool)
deriving DecidableEq

def FunctionSfdMetadata.encode (metadata : FunctionSfdMetadata) : Writer :=
  .all [.bool metadata.usesThis, .bool metadata.thisValueNeedsEnvironmentResolution,
    .bool metadata.functionEnvironmentNeeded, .u64 metadata.functionEnvironmentBindingsCount,
    .u64 metadata.varEnvironmentBindingsCount, .bool metadata.mightNeedArguments,
    .bool metadata.containsEval]

def FunctionSfdMetadata.decode : Reader FunctionSfdMetadata := do
  let usesThis ← Reader.bool
  let thisValueNeedsEnvironmentResolution ← Reader.bool
  let functionEnvironmentNeeded ← Reader.bool
  let functionEnvironmentBindingsCount ← Reader.u64
  let varEnvironmentBindingsCount ← Reader.u64
  let mightNeedArguments ← Reader.bool
  let containsEval ← Reader.bool
  pure
    { usesThis, thisValueNeedsEnvironmentResolution, functionEnvironmentNeeded,
      functionEnvironmentBindingsCount, varEnvironmentBindingsCount, mightNeedArguments,
      containsEval }

structure ClassFieldInitializerName where
  name : Utf16String
  isPrivate : Bool
deriving DecidableEq

def ClassFieldInitializerName.encode (initializer : ClassFieldInitializerName) : Writer :=
  .all [encodeUtf16 initializer.name, .bool initializer.isPrivate]

def ClassFieldInitializerName.decode : Reader ClassFieldInitializerName := do
  let name ← decodeUtf16
  let isPrivate ← Reader.bool
  pure { name, isPrivate }

structure FunctionHeader where
  name : Option Utf16String
  (sourceTextStart sourceTextEnd : UInt32)
  functionLength : Int32
  formalParameterCount : Nat
  kind : FunctionKind
  (isStrictMode isArrowFunction : Bool)
  parameterNames : Option (List Utf16String)
  (usesThis usesThisFromEnvironment : Bool)
  classFieldInitializerName : Option ClassFieldInitializerName
  metadata : FunctionSfdMetadata
deriving DecidableEq

def FunctionHeader.encode (header : FunctionHeader) : Writer :=
  .all [encodeOptionalUtf16 header.name, .u32 header.sourceTextStart, .u32 header.sourceTextEnd,
    .i32 header.functionLength, .size header.formalParameterCount, .u8 header.kind.tag,
    .bool header.isStrictMode, .bool header.isArrowFunction,
    .optional (header.parameterNames.map encodeUtf16Vector), .bool header.usesThis,
    .bool header.usesThisFromEnvironment,
    .optional (header.classFieldInitializerName.map ClassFieldInitializerName.encode),
    header.metadata.encode]

def FunctionHeader.decode : Reader FunctionHeader := do
  let name ← decodeOptionalUtf16
  let sourceTextStart ← Reader.u32
  let sourceTextEnd ← Reader.u32
  let functionLength ← Reader.i32
  let formalParameterCount ← Reader.size
  let kind ← Reader.tagged FunctionKind.fromTag
  let isStrictMode ← Reader.bool
  let isArrowFunction ← Reader.bool
  let parameterNames ← Reader.optional decodeUtf16Vector
  let usesThis ← Reader.bool
  let usesThisFromEnvironment ← Reader.bool
  let classFieldInitializerName ← Reader.optional ClassFieldInitializerName.decode
  let metadata ← FunctionSfdMetadata.decode
  pure
    { name, sourceTextStart, sourceTextEnd, functionLength, formalParameterCount, kind,
      isStrictMode, isArrowFunction, parameterNames, usesThis, usesThisFromEnvironment,
      classFieldInitializerName, metadata }

structure ExecutableHeader where
  strict : Bool
  (numberOfRegisters numberOfArguments : UInt32)
  cacheCounters : CacheCounters
  thisValueNeedsEnvironmentResolution : Bool
  lengthIdentifier : Option UInt32
deriving DecidableEq

def ExecutableHeader.encode (header : ExecutableHeader) : Writer :=
  .all [.bool header.strict, .u32 header.numberOfRegisters, .u32 header.numberOfArguments,
    header.cacheCounters.encode, .bool header.thisValueNeedsEnvironmentResolution,
    .optional (header.lengthIdentifier.map Writer.u32)]

def ExecutableHeader.decode : Reader ExecutableHeader := do
  let strict ← Reader.bool
  let numberOfRegisters ← Reader.u32
  let numberOfArguments ← Reader.u32
  let cacheCounters ← CacheCounters.decode
  let thisValueNeedsEnvironmentResolution ← Reader.bool
  let lengthIdentifier ← Reader.optional Reader.u32
  pure
    { strict, numberOfRegisters, numberOfArguments, cacheCounters,
      thisValueNeedsEnvironmentResolution, lengthIdentifier }

structure ExecutableBody where
  header : ExecutableHeader
  bytecode : Bytes
  (identifierTable propertyKeyTable stringTable : List Utf16String)
  constants : List ConstantValue
  exceptionHandlers : List ExceptionHandler
  sourceMap : List SourceMapEntry
  localVariables : List LocalVariable
  classBlueprints : List ClassBlueprintRecord
deriving DecidableEq

mutual

inductive ExecutableRecord where
  | mk (body : ExecutableBody) (sharedFunctions : List FunctionRecord)

inductive FunctionRecord where
  | mk (header : FunctionHeader) (precompiled : ExecutableRecord)

end

mutual

def ExecutableRecord.encode : ExecutableRecord → Writer
  | .mk body sharedFunctions =>
    .all [body.header.encode,
      .all [.alignBytesPayloadTo bytecodeAlignment, .embedded (.raw body.bytecode)],
      DecodedRecordSequence.encode body.identifierTable encodeUtf16,
      DecodedRecordSequence.encode body.propertyKeyTable encodeUtf16,
      DecodedRecordSequence.encode body.stringTable encodeUtf16,
      encodeConstantTable body.constants,
      DecodedRecordSequence.encode body.exceptionHandlers ExceptionHandler.encode,
      DecodedRecordSequence.encode body.sourceMap SourceMapEntry.encode,
      DecodedRecordSequence.encode body.localVariables LocalVariable.encode,
      DecodedRecordSequence.encodeWithAlignment bytecodeAlignment sharedFunctions.length
        (encodeFunctions sharedFunctions),
      DecodedRecordSequence.encode body.classBlueprints ClassBlueprintRecord.encode]

def encodeFunctions : List FunctionRecord → Writer
  | [] => .all []
  | first :: rest => fun length =>
    (first.encode length).bind fun written =>
      (encodeFunctions rest (length + written.length)).map fun more => written ++ more

def FunctionRecord.encode : FunctionRecord → Writer
  | .mk header precompiled =>
    .all [header.encode,
      .all [.alignBytesPayloadTo bytecodeAlignment, .embedded precompiled.encode]]

end

theorem encode_functions_eq (functions : List FunctionRecord) :
    encodeFunctions functions = .all (functions.map FunctionRecord.encode) := by
  induction functions with
  | nil => rw [encodeFunctions, List.map_nil]
  | cons _ _ ih =>
    rw [encodeFunctions, ih]
    rfl

structure DecodedExecutableRecord where
  header : ExecutableHeader
  bytecode : Payload
  (identifierTable propertyKeyTable stringTable : DecodedRecordSequence)
  constants : DecodedConstantTable
  (exceptionHandlers sourceMap localVariables : DecodedRecordSequence)
  (sharedFunctions classBlueprints : DecodedRecordSequence)
deriving DecidableEq

def DecodedExecutableRecord.decode : Reader DecodedExecutableRecord := do
  let header ← ExecutableHeader.decode
  let bytecode ← (do Reader.alignBytesPayloadTo bytecodeAlignment; Payload.sized)
  let identifierTable ← DecodedRecordSequence.decode
  let propertyKeyTable ← DecodedRecordSequence.decode
  let stringTable ← DecodedRecordSequence.decode
  let constants ← DecodedConstantTable.decode
  let exceptionHandlers ← DecodedRecordSequence.decode
  let sourceMap ← DecodedRecordSequence.decode
  let localVariables ← DecodedRecordSequence.decode
  let sharedFunctions ← DecodedRecordSequence.decodeWithAlignment bytecodeAlignment
  let classBlueprints ← DecodedRecordSequence.decode
  pure
    { header, bytecode, identifierTable, propertyKeyTable, stringTable, constants,
      exceptionHandlers, sourceMap, localVariables, sharedFunctions, classBlueprints }

structure DecodedFunctionRecord where
  header : FunctionHeader
  precompiled : Payload
deriving DecidableEq

def DecodedFunctionRecord.decode : Reader DecodedFunctionRecord := do
  let header ← FunctionHeader.decode
  let precompiled ← (do Reader.alignBytesPayloadTo bytecodeAlignment; Payload.sized)
  pure { header, precompiled }

def DecodedFunctionRecord.decodeExecutable (function : DecodedFunctionRecord) :
    Option DecodedExecutableRecord :=
  DecodedExecutableRecord.decode.whole function.precompiled.input

/-! ## The blob -/

/-- `scriptMetadata` and `moduleMetadata` are what `from_scope` makes of the program's scope for
either type. -/
structure CompiledProgram where
  (hasTopLevelAwait isStrictMode : Bool)
  scriptMetadata : ScriptDeclarationMetadata
  moduleMetadata : ModuleDeclarationMetadata
  declarationFunctions : List FunctionRecord
  kind : ProgramKind
  executable : ExecutableRecord

def CompiledProgram.metadata (compiled : CompiledProgram) : ProgramType → DeclarationMetadata
  | .script => .script compiled.scriptMetadata
  | .module => .module compiled.moduleMetadata

def encodeCacheBlob (compiled : CompiledProgram) (programType : ProgramType)
    (sourceHash : SourceHash) : Writer :=
  .all [.raw magic, .u32 formatVersion, .u8 programType.tag, .raw sourceHash.val,
    .bool compiled.hasTopLevelAwait, .bool compiled.isStrictMode,
    (compiled.metadata programType).encode,
    DecodedRecordSequence.encodeWithAlignment bytecodeAlignment
      compiled.declarationFunctions.length (encodeFunctions compiled.declarationFunctions),
    .u8 compiled.kind.tag, compiled.executable.encode]

def serializeCompiledProgram (compiled : CompiledProgram) (programType : ProgramType)
    (sourceHash : SourceHash) : Option Bytes :=
  encodeCacheBlob compiled programType sourceHash 0

structure DecodedCacheBlob where
  programType : ProgramType
  (hasTopLevelAwait isStrictMode : Bool)
  metadata : DeclarationMetadata
  declarationFunctions : List DecodedFunctionRecord
  kind : ProgramKind
  executable : DecodedExecutableRecord
deriving DecidableEq

/-- The declaration functions are read at once, their executables later. -/
def decodeDeclarationFunctions : Reader (List DecodedFunctionRecord) := do
  let sequence ← DecodedRecordSequence.decodeWithAlignment bytecodeAlignment
  Reader.ofOption (sequence.values DecodedFunctionRecord.decode)

def DecodedCacheBlob.decode (expectedProgramType : ProgramType) (expectedSourceHash : SourceHash) :
    Reader DecodedCacheBlob := do
  let start ← Reader.take magic.length
  Reader.require (start == magic)
  let version ← Reader.u32
  Reader.require (version == formatVersion)
  let programType ← Reader.tagged ProgramType.fromTag
  Reader.require (programType == expectedProgramType)
  let hash ← Reader.take sourceHashSize
  Reader.require (hash == expectedSourceHash.val)
  let hasTopLevelAwait ← Reader.bool
  let isStrictMode ← Reader.bool
  let metadata ← DeclarationMetadata.decode
  let declarationFunctions ← decodeDeclarationFunctions
  let kind ← Reader.tagged ProgramKind.fromTag
  let executable ← DecodedExecutableRecord.decode
  pure
    { programType, hasTopLevelAwait, isStrictMode, metadata, declarationFunctions, kind,
      executable }

def decodeBlob (bytes : Bytes) (expectedProgramType : ProgramType)
    (expectedSourceHash : SourceHash) : Option DecodedCacheBlob :=
  (DecodedCacheBlob.decode expectedProgramType expectedSourceHash).whole ⟨bytes, 0⟩

end Ladybone.BytecodeCache
