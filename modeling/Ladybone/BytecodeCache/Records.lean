import Ladybone.Support.Codec

/-!
# The records of the bytecode cache

The leaf records of `bytecode_cache.rs`, each with its `encode` and `decode` in the source's
field order. A `usize` is 64 bits wide and an `f64` is its bits. Strings are UTF-16 code
units, aligned to two bytes behind their padding.
-/

namespace Ladybone.BytecodeCache

open Support.Codec List

abbrev Utf16String := List UInt16

def encodeUtf16 (units : Utf16String) : Writer :=
  .all [.alignTo 2, .size units.length, .raw (units.flatMap fun unit => littleEndian 2 unit.toNat)]

def codeUnits : Bytes → Utf16String
  | low :: high :: rest => UInt16.ofNat (fromLittleEndian [low, high]) :: codeUnits rest
  | _ => []

def decodeUtf16 : Reader Utf16String := do
  Reader.alignTo 2
  let length ← Reader.size
  let bytes ← Reader.take (length * 2)
  pure (codeUnits bytes)

/-! ## Program and metadata kinds -/

inductive ProgramType where
  | script
  | module
deriving DecidableEq

def ProgramType.tag : ProgramType → UInt8
  | .script => 0
  | .module => 1

def ProgramType.fromTag : UInt8 → Option ProgramType
  | 0 => some .script
  | 1 => some .module
  | _ => none

inductive MetadataKind where
  | script
  | module
deriving DecidableEq

def MetadataKind.tag : MetadataKind → UInt8
  | .script => 0
  | .module => 1

def MetadataKind.fromTag : UInt8 → Option MetadataKind
  | 0 => some .script
  | 1 => some .module
  | _ => none

inductive ProgramKind where
  | scriptOrModule
  | asyncModule
deriving DecidableEq

def ProgramKind.tag : ProgramKind → UInt8
  | .scriptOrModule => 0
  | .asyncModule => 1

def ProgramKind.fromTag : UInt8 → Option ProgramKind
  | 0 => some .scriptOrModule
  | 1 => some .asyncModule
  | _ => none

inductive FunctionKind where
  | normal
  | generator
  | async
  | asyncGenerator
deriving DecidableEq

def FunctionKind.tag : FunctionKind → UInt8
  | .normal => 0
  | .generator => 1
  | .async => 2
  | .asyncGenerator => 3

def FunctionKind.fromTag : UInt8 → Option FunctionKind
  | 0 => some .normal
  | 1 => some .generator
  | 2 => some .async
  | 3 => some .asyncGenerator
  | _ => none

inductive ExportEntryKind where
  | namedExport
  | moduleRequestAll
  | moduleRequestAllButDefault
  | emptyNamedExport
deriving DecidableEq

def ExportEntryKind.tag : ExportEntryKind → UInt8
  | .namedExport => 0
  | .moduleRequestAll => 1
  | .moduleRequestAllButDefault => 2
  | .emptyNamedExport => 3

/-- `collect_module_imports_and_exports` stops at an empty export before it makes a record. -/
abbrev RecordedExportKind := { kind : ExportEntryKind // kind ≠ .emptyNamedExport }

def ExportEntryKind.fromTag : UInt8 → Option RecordedExportKind
  | 0 => some ⟨.namedExport, by decide⟩
  | 1 => some ⟨.moduleRequestAll, by decide⟩
  | 2 => some ⟨.moduleRequestAllButDefault, by decide⟩
  | _ => none

/-! ## Declaration metadata -/

def encodeUtf16Vector (values : List Utf16String) : Writer := .sequence values encodeUtf16

def decodeUtf16Vector : Reader (List Utf16String) := .sequence decodeUtf16

def encodeOptionalUtf16 (value : Option Utf16String) : Writer := .optional (value.map encodeUtf16)

def decodeOptionalUtf16 : Reader (Option Utf16String) := .optional decodeUtf16

structure LexicalBindingRecord where
  name : Utf16String
  isConstant : Bool
deriving DecidableEq

def LexicalBindingRecord.encode (binding : LexicalBindingRecord) : Writer :=
  .all [encodeUtf16 binding.name, .bool binding.isConstant]

def LexicalBindingRecord.decode : Reader LexicalBindingRecord := do
  let name ← decodeUtf16
  let isConstant ← Reader.bool
  pure { name, isConstant }

structure ModuleLexicalBindingRecord where
  name : Utf16String
  isConstant : Bool
  functionIndex : Int32
deriving DecidableEq

def ModuleLexicalBindingRecord.encode (binding : ModuleLexicalBindingRecord) : Writer :=
  .all [encodeUtf16 binding.name, .bool binding.isConstant, .i32 binding.functionIndex]

def ModuleLexicalBindingRecord.decode : Reader ModuleLexicalBindingRecord := do
  let name ← decodeUtf16
  let isConstant ← Reader.bool
  let functionIndex ← Reader.i32
  pure { name, isConstant, functionIndex }

structure ImportAttribute where
  (key value : Utf16String)
deriving DecidableEq

def ImportAttribute.encode (pair : ImportAttribute) : Writer :=
  .all [encodeUtf16 pair.key, encodeUtf16 pair.value]

def ImportAttribute.decode : Reader ImportAttribute := do
  let key ← decodeUtf16
  let value ← decodeUtf16
  pure { key, value }

structure ModuleRequestRecord where
  specifier : Utf16String
  attributes : List ImportAttribute
deriving DecidableEq

def ModuleRequestRecord.encode (request : ModuleRequestRecord) : Writer :=
  .all [encodeUtf16 request.specifier, .sequence request.attributes ImportAttribute.encode]

def ModuleRequestRecord.decode : Reader ModuleRequestRecord := do
  let specifier ← decodeUtf16
  let attributes ← Reader.sequence ImportAttribute.decode
  pure { specifier, attributes }

structure ModuleImportEntryRecord where
  importName : Option Utf16String
  localName : Utf16String
  moduleRequest : ModuleRequestRecord
deriving DecidableEq

def ModuleImportEntryRecord.encode (entry : ModuleImportEntryRecord) : Writer :=
  .all [encodeOptionalUtf16 entry.importName, encodeUtf16 entry.localName,
    entry.moduleRequest.encode]

def ModuleImportEntryRecord.decode : Reader ModuleImportEntryRecord := do
  let importName ← decodeOptionalUtf16
  let localName ← decodeUtf16
  let moduleRequest ← ModuleRequestRecord.decode
  pure { importName, localName, moduleRequest }

structure ModuleExportEntryRecord where
  kind : RecordedExportKind
  (exportName localOrImportName : Option Utf16String)
  moduleRequest : Option ModuleRequestRecord
deriving DecidableEq

def ModuleExportEntryRecord.encode (entry : ModuleExportEntryRecord) : Writer :=
  .all [.u8 entry.kind.val.tag, encodeOptionalUtf16 entry.exportName,
    encodeOptionalUtf16 entry.localOrImportName,
    .optional (entry.moduleRequest.map ModuleRequestRecord.encode)]

def ModuleExportEntryRecord.decode : Reader ModuleExportEntryRecord := do
  let kind ← Reader.tagged ExportEntryKind.fromTag
  let exportName ← decodeOptionalUtf16
  let localOrImportName ← decodeOptionalUtf16
  let moduleRequest ← Reader.optional ModuleRequestRecord.decode
  pure { kind, exportName, localOrImportName, moduleRequest }

structure ScriptDeclarationMetadata where
  (lexicalNames varNames functionNames varScopedNames annexBCandidateNames : List Utf16String)
  lexicalBindings : List LexicalBindingRecord
deriving DecidableEq

def ScriptDeclarationMetadata.encodePayload (metadata : ScriptDeclarationMetadata) : Writer :=
  .all [encodeUtf16Vector metadata.lexicalNames, encodeUtf16Vector metadata.varNames,
    encodeUtf16Vector metadata.functionNames, encodeUtf16Vector metadata.varScopedNames,
    encodeUtf16Vector metadata.annexBCandidateNames,
    .sequence metadata.lexicalBindings LexicalBindingRecord.encode]

def ScriptDeclarationMetadata.decodePayload : Reader ScriptDeclarationMetadata := do
  let lexicalNames ← decodeUtf16Vector
  let varNames ← decodeUtf16Vector
  let functionNames ← decodeUtf16Vector
  let varScopedNames ← decodeUtf16Vector
  let annexBCandidateNames ← decodeUtf16Vector
  let lexicalBindings ← Reader.sequence LexicalBindingRecord.decode
  pure
    { lexicalNames, varNames, functionNames, varScopedNames, annexBCandidateNames, lexicalBindings }

structure ModuleDeclarationMetadata where
  importEntries : List ModuleImportEntryRecord
  (localExports indirectExports starExports : List ModuleExportEntryRecord)
  requestedModules : List ModuleRequestRecord
  defaultExportBindingName : Option Utf16String
  (varDeclaredNames functionNames : List Utf16String)
  lexicalBindings : List ModuleLexicalBindingRecord
deriving DecidableEq

def ModuleDeclarationMetadata.encodePayload (metadata : ModuleDeclarationMetadata) : Writer :=
  .all [.sequence metadata.importEntries ModuleImportEntryRecord.encode,
    .sequence metadata.localExports ModuleExportEntryRecord.encode,
    .sequence metadata.indirectExports ModuleExportEntryRecord.encode,
    .sequence metadata.starExports ModuleExportEntryRecord.encode,
    .sequence metadata.requestedModules ModuleRequestRecord.encode,
    encodeOptionalUtf16 metadata.defaultExportBindingName,
    encodeUtf16Vector metadata.varDeclaredNames, encodeUtf16Vector metadata.functionNames,
    .sequence metadata.lexicalBindings ModuleLexicalBindingRecord.encode]

def ModuleDeclarationMetadata.decodePayload : Reader ModuleDeclarationMetadata := do
  let importEntries ← Reader.sequence ModuleImportEntryRecord.decode
  let localExports ← Reader.sequence ModuleExportEntryRecord.decode
  let indirectExports ← Reader.sequence ModuleExportEntryRecord.decode
  let starExports ← Reader.sequence ModuleExportEntryRecord.decode
  let requestedModules ← Reader.sequence ModuleRequestRecord.decode
  let defaultExportBindingName ← decodeOptionalUtf16
  let varDeclaredNames ← decodeUtf16Vector
  let functionNames ← decodeUtf16Vector
  let lexicalBindings ← Reader.sequence ModuleLexicalBindingRecord.decode
  pure
    { importEntries, localExports, indirectExports, starExports, requestedModules,
      defaultExportBindingName, varDeclaredNames, functionNames, lexicalBindings }

/-- What `from_scope` collects, by the kind of the program. -/
inductive DeclarationMetadata where
  | script (metadata : ScriptDeclarationMetadata)
  | module (metadata : ModuleDeclarationMetadata)
deriving DecidableEq

def DeclarationMetadata.encode : DeclarationMetadata → Writer
  | .script metadata => .all [.u8 MetadataKind.script.tag, metadata.encodePayload]
  | .module metadata => .all [.u8 MetadataKind.module.tag, metadata.encodePayload]

def DeclarationMetadata.decode : Reader DeclarationMetadata := do
  match ← Reader.tagged MetadataKind.fromTag with
  | .script => do
      let metadata ← ScriptDeclarationMetadata.decodePayload
      pure (.script metadata)
  | .module => do
      let metadata ← ModuleDeclarationMetadata.decodePayload
      pure (.module metadata)

/-! ## Constants -/

inductive WellKnownSymbolKind where
  | symbolIterator
  | symbolAsyncIterator
deriving DecidableEq

def WellKnownSymbolKind.tag : WellKnownSymbolKind → UInt8
  | .symbolIterator => 0
  | .symbolAsyncIterator => 1

def WellKnownSymbolKind.fromTag : UInt8 → Option WellKnownSymbolKind
  | 0 => some .symbolIterator
  | 1 => some .symbolAsyncIterator
  | _ => none

inductive AbstractOperationKind where
  | asyncIteratorClose
  | getMethod
  | getIteratorDirect
  | getIteratorFromMethod
  | iteratorComplete
deriving DecidableEq

def AbstractOperationKind.tag : AbstractOperationKind → UInt8
  | .asyncIteratorClose => 0
  | .getMethod => 1
  | .getIteratorDirect => 2
  | .getIteratorFromMethod => 3
  | .iteratorComplete => 4

def AbstractOperationKind.fromTag : UInt8 → Option AbstractOperationKind
  | 0 => some .asyncIteratorClose
  | 1 => some .getMethod
  | 2 => some .getIteratorDirect
  | 3 => some .getIteratorFromMethod
  | 4 => some .iteratorComplete
  | _ => none

inductive ConstantValue where
  | number (bits : UInt64)
  | boolean (value : Bool)
  | null
  | undefined
  | empty
  | string (value : Utf16String)
  | bigInt (digits : String)
  | wellKnownSymbol (symbol : WellKnownSymbolKind)
  | abstractOperation (operation : AbstractOperationKind)
deriving DecidableEq

open ConstantValue

inductive ConstantTag where
  | number
  | booleanTrue
  | booleanFalse
  | null
  | undefined
  | empty
  | string
  | bigInt
  | wellKnownSymbol
  | abstractOperation
deriving DecidableEq

def ConstantTag.tag : ConstantTag → UInt8
  | .number => 0
  | .booleanTrue => 1
  | .booleanFalse => 2
  | .null => 3
  | .undefined => 4
  | .empty => 5
  | .string => 6
  | .bigInt => 7
  | .wellKnownSymbol => 8
  | .abstractOperation => 9

def ConstantTag.fromTag : UInt8 → Option ConstantTag
  | 0 => some .number
  | 1 => some .booleanTrue
  | 2 => some .booleanFalse
  | 3 => some .null
  | 4 => some .undefined
  | 5 => some .empty
  | 6 => some .string
  | 7 => some .bigInt
  | 8 => some .wellKnownSymbol
  | 9 => some .abstractOperation
  | _ => none

def ConstantValue.encode : ConstantValue → Writer
  | .number bits => .all [.u8 ConstantTag.number.tag, .u64 bits]
  | .boolean true => .all [.u8 ConstantTag.booleanTrue.tag]
  | .boolean false => .all [.u8 ConstantTag.booleanFalse.tag]
  | .null => .all [.u8 ConstantTag.null.tag]
  | .undefined => .all [.u8 ConstantTag.undefined.tag]
  | .empty => .all [.u8 ConstantTag.empty.tag]
  | .string value => .all [.u8 ConstantTag.string.tag, encodeUtf16 value]
  | .bigInt digits =>
    .all [.u8 ConstantTag.bigInt.tag, .bytes digits.toByteArray.data.toList]
  | .wellKnownSymbol symbol => .all [.u8 ConstantTag.wellKnownSymbol.tag, .u8 symbol.tag]
  | .abstractOperation operation =>
    .all [.u8 ConstantTag.abstractOperation.tag, .u8 operation.tag]

def ConstantValue.decode : Reader ConstantValue := do
  match ← Reader.tagged ConstantTag.fromTag with
  | .number => do
      let bits ← Reader.u64
      pure (.number bits)
  | .booleanTrue => pure (.boolean true)
  | .booleanFalse => pure (.boolean false)
  | .null => pure .null
  | .undefined => pure .undefined
  | .empty => pure .empty
  | .string => do
      let value ← decodeUtf16
      pure (.string value)
  | .bigInt => do
      let length ← Reader.size
      let bytes ← Reader.take length
      let digits ← Reader.ofOption (String.fromUTF8? ⟨bytes.toArray⟩)
      pure (.bigInt digits)
  | .wellKnownSymbol => do
      let symbol ← Reader.tagged WellKnownSymbolKind.fromTag
      pure (.wellKnownSymbol symbol)
  | .abstractOperation => do
      let operation ← Reader.tagged AbstractOperationKind.fromTag
      pure (.abstractOperation operation)

/-! ## Tables of an executable -/

structure ExceptionHandler where
  (startOffset endOffset handlerOffset : UInt32)
deriving DecidableEq

def ExceptionHandler.encode (handler : ExceptionHandler) : Writer :=
  .all [.u32 handler.startOffset, .u32 handler.endOffset, .u32 handler.handlerOffset]

def ExceptionHandler.decode : Reader ExceptionHandler := do
  let startOffset ← Reader.u32
  let endOffset ← Reader.u32
  let handlerOffset ← Reader.u32
  pure { startOffset, endOffset, handlerOffset }

structure SourceMapEntry where
  (bytecodeOffset line column : UInt32)
deriving DecidableEq

def SourceMapEntry.encode (entry : SourceMapEntry) : Writer :=
  .all [.u32 entry.bytecodeOffset, .u32 entry.line, .u32 entry.column]

def SourceMapEntry.decode : Reader SourceMapEntry := do
  let bytecodeOffset ← Reader.u32
  let line ← Reader.u32
  let column ← Reader.u32
  pure { bytecodeOffset, line, column }

structure LocalVariable where
  name : Utf16String
  (isLexicallyDeclared isInitializedDuringDeclarationInstantiation : Bool)
deriving DecidableEq

def LocalVariable.encode (entry : LocalVariable) : Writer :=
  .all [encodeUtf16 entry.name, .bool entry.isLexicallyDeclared,
    .bool entry.isInitializedDuringDeclarationInstantiation]

def LocalVariable.decode : Reader LocalVariable := do
  let name ← decodeUtf16
  let isLexicallyDeclared ← Reader.bool
  let isInitializedDuringDeclarationInstantiation ← Reader.bool
  pure { name, isLexicallyDeclared, isInitializedDuringDeclarationInstantiation }

structure CacheCounters where
  (propertyLookupCacheCount globalVariableCacheCount environmentCoordinateCacheCount : UInt32)
  (templateObjectCacheCount objectShapeCacheCount objectPropertyIteratorCacheCount : UInt32)
deriving DecidableEq

def CacheCounters.encode (counters : CacheCounters) : Writer :=
  .all [.u32 counters.propertyLookupCacheCount, .u32 counters.globalVariableCacheCount,
    .u32 counters.environmentCoordinateCacheCount, .u32 counters.templateObjectCacheCount,
    .u32 counters.objectShapeCacheCount, .u32 counters.objectPropertyIteratorCacheCount]

def CacheCounters.decode : Reader CacheCounters := do
  let propertyLookupCacheCount ← Reader.u32
  let globalVariableCacheCount ← Reader.u32
  let environmentCoordinateCacheCount ← Reader.u32
  let templateObjectCacheCount ← Reader.u32
  let objectShapeCacheCount ← Reader.u32
  let objectPropertyIteratorCacheCount ← Reader.u32
  pure
    { propertyLookupCacheCount, globalVariableCacheCount, environmentCoordinateCacheCount,
      templateObjectCacheCount, objectShapeCacheCount, objectPropertyIteratorCacheCount }

/-! ## Class blueprints -/

inductive PendingLiteralValueKind where
  | none
  | number
  | booleanTrue
  | booleanFalse
  | null
  | string
deriving DecidableEq

def PendingLiteralValueKind.tag : PendingLiteralValueKind → UInt8
  | .none => 0
  | .number => 1
  | .booleanTrue => 2
  | .booleanFalse => 3
  | .null => 4
  | .string => 5

def PendingLiteralValueKind.fromTag : UInt8 → Option PendingLiteralValueKind
  | 0 => some .none
  | 1 => some .number
  | 2 => some .booleanTrue
  | 3 => some .booleanFalse
  | 4 => some .null
  | 5 => some .string
  | _ => Option.none

structure ClassElementRecord where
  kind : UInt8
  (isStatic isPrivate : Bool)
  privateIdentifier : Option Utf16String
  sharedFunctionDataIndex : Option UInt32
  hasInitializer : Bool
  literalValueKind : PendingLiteralValueKind
  literalValueNumber : UInt64
  literalValueString : Option Utf16String
deriving DecidableEq

def ClassElementRecord.encode (element : ClassElementRecord) : Writer :=
  .all [.u8 element.kind, .bool element.isStatic, .bool element.isPrivate,
    encodeOptionalUtf16 element.privateIdentifier,
    .optional (element.sharedFunctionDataIndex.map Writer.u32), .bool element.hasInitializer,
    .u8 element.literalValueKind.tag, .u64 element.literalValueNumber,
    encodeOptionalUtf16 element.literalValueString]

def ClassElementRecord.decode : Reader ClassElementRecord := do
  let kind ← Reader.u8
  let isStatic ← Reader.bool
  let isPrivate ← Reader.bool
  let privateIdentifier ← decodeOptionalUtf16
  let sharedFunctionDataIndex ← Reader.optional Reader.u32
  let hasInitializer ← Reader.bool
  let literalValueKind ← Reader.tagged PendingLiteralValueKind.fromTag
  let literalValueNumber ← Reader.u64
  let literalValueString ← decodeOptionalUtf16
  pure
    { kind, isStatic, isPrivate, privateIdentifier, sharedFunctionDataIndex, hasInitializer,
      literalValueKind, literalValueNumber, literalValueString }

structure ClassBlueprintRecord where
  name : Option Utf16String
  (sourceTextOffset sourceTextLength : UInt64)
  constructorSfdIndex : UInt32
  (hasSuperClass hasName : Bool)
  elements : List ClassElementRecord
deriving DecidableEq

def ClassBlueprintRecord.encode (blueprint : ClassBlueprintRecord) : Writer :=
  .all [encodeOptionalUtf16 blueprint.name, .u64 blueprint.sourceTextOffset,
    .u64 blueprint.sourceTextLength, .u32 blueprint.constructorSfdIndex,
    .bool blueprint.hasSuperClass, .bool blueprint.hasName,
    .sequence blueprint.elements ClassElementRecord.encode]

def ClassBlueprintRecord.decode : Reader ClassBlueprintRecord := do
  let name ← decodeOptionalUtf16
  let sourceTextOffset ← Reader.u64
  let sourceTextLength ← Reader.u64
  let constructorSfdIndex ← Reader.u32
  let hasSuperClass ← Reader.bool
  let hasName ← Reader.bool
  let elements ← Reader.sequence ClassElementRecord.decode
  pure
    { name, sourceTextOffset, sourceTextLength, constructorSfdIndex, hasSuperClass, hasName,
      elements }

/-! ## Round trips of the leaf records -/

section
variable {blob : Bytes}

theorem length_little_endian_units {units : Utf16String} :
    (units.flatMap fun unit => littleEndian 2 unit.toNat).length = units.length * 2 := by
  induction units with
  | nil => rfl
  | cons _ _ ih =>
    rw [flatMap_cons, length_append, length_little_endian, length_cons]
    omega

theorem code_units_little_endian {units : Utf16String} :
    codeUnits (units.flatMap fun unit => littleEndian 2 unit.toNat) = units := by
  induction units with
  | nil => rfl
  | cons unit _ ih =>
    have first : UInt16.ofNat (fromLittleEndian (littleEndian 2 unit.toNat)) = unit := by
      rw [from_little_endian unit.toNat_lt]
      exact UInt16.ofNat_toNat
    rw [flatMap_cons]
    simp only [littleEndian, cons_append, nil_append, codeUnits] at first ih ⊢
    rw [first, ih]

theorem reads_utf16 {units : Utf16String} :
    Reads blob 2 (encodeUtf16 units) decodeUtf16 (· = units) := by
  refine (reads_align_to (dvd_refl 2)).cons fun _ _ => ?_
  refine reads_size.field ?_
  refine (reads_raw length_little_endian_units).field ?_
  exact Reads.nil code_units_little_endian

theorem positive_utf16 {units : Utf16String} : Positive (encodeUtf16 units) :=
  positive_behind (positive_cons positive_size)

theorem reads_optional_utf16 {val : Option Utf16String} :
    Reads blob 2 (encodeOptionalUtf16 val) decodeOptionalUtf16 (· = val) :=
  reads_optional_eq fun _ _ => reads_utf16

theorem reads_utf16Vector {values : List Utf16String} :
    Reads blob 2 (encodeUtf16Vector values) decodeUtf16Vector (· = values) :=
  reads_sequence_eq (fun _ _ => positive_utf16) fun _ _ => reads_utf16

theorem reads_lexical_binding {binding : LexicalBindingRecord} :
    Reads blob 2 binding.encode LexicalBindingRecord.decode (· = binding) :=
  reads_utf16.field <| reads_bool.field <| .nil rfl

theorem reads_module_lexical_binding {binding : ModuleLexicalBindingRecord} :
    Reads blob 2 binding.encode ModuleLexicalBindingRecord.decode (· = binding) :=
  reads_utf16.field <| reads_bool.field <| reads_i32.field <| .nil rfl

theorem reads_import_attribute {pair : ImportAttribute} :
    Reads blob 2 pair.encode ImportAttribute.decode (· = pair) :=
  reads_utf16.field <| reads_utf16.field <| .nil rfl

theorem reads_module_request {req : ModuleRequestRecord} :
    Reads blob 2 req.encode ModuleRequestRecord.decode (· = req) :=
  reads_utf16.field <|
    (reads_sequence_eq (fun _ _ => positive_cons positive_utf16)
      fun _ _ => reads_import_attribute).field <| .nil rfl

theorem reads_module_import_entry {entry : ModuleImportEntryRecord} :
    Reads blob 2 entry.encode ModuleImportEntryRecord.decode (· = entry) :=
  reads_optional_utf16.field <| reads_utf16.field <| reads_module_request.field <| .nil rfl

theorem reads_module_export_entry {entry : ModuleExportEntryRecord} :
    Reads blob 2 entry.encode ModuleExportEntryRecord.decode (· = entry) := by
  have inverse : ExportEntryKind.fromTag entry.kind.val.tag = some entry.kind := by
    obtain ⟨kind, recorded⟩ := entry.kind
    cases kind with
    | emptyNamedExport => exact absurd rfl recorded
    | _ => rfl
  exact (reads_tagged inverse).field <| reads_optional_utf16.field <|
    reads_optional_utf16.field <|
    (reads_optional_eq fun _ _ => reads_module_request).field <| .nil rfl

theorem reads_script_declaration_metadata {metadata : ScriptDeclarationMetadata} :
    Reads blob 2 metadata.encodePayload ScriptDeclarationMetadata.decodePayload (· = metadata) :=
  reads_utf16Vector.field <| reads_utf16Vector.field <| reads_utf16Vector.field <|
    reads_utf16Vector.field <| reads_utf16Vector.field <|
    (reads_sequence_eq (fun _ _ => positive_cons positive_utf16)
      fun _ _ => reads_lexical_binding).field <| .nil rfl

theorem reads_module_export_entries {entries : List ModuleExportEntryRecord} :
    Reads blob 2 (.sequence entries ModuleExportEntryRecord.encode)
      (.sequence ModuleExportEntryRecord.decode) (· = entries) :=
  reads_sequence_eq (fun _ _ => positive_cons positive_u8) fun _ _ => reads_module_export_entry

theorem reads_module_declaration_metadata {metadata : ModuleDeclarationMetadata} :
    Reads blob 2 metadata.encodePayload ModuleDeclarationMetadata.decodePayload (· = metadata) :=
  (reads_sequence_eq (fun _ _ => positive_cons positive_optional)
      fun _ _ => reads_module_import_entry).field <|
    reads_module_export_entries.field <| reads_module_export_entries.field <|
    reads_module_export_entries.field <|
    (reads_sequence_eq (fun _ _ => positive_cons positive_utf16)
      fun _ _ => reads_module_request).field <|
    reads_optional_utf16.field <| reads_utf16Vector.field <| reads_utf16Vector.field <|
    (reads_sequence_eq (fun _ _ => positive_cons positive_utf16)
      fun _ _ => reads_module_lexical_binding).field <| .nil rfl

theorem reads_declaration_metadata {metadata : DeclarationMetadata} :
    Reads blob 2 metadata.encode DeclarationMetadata.decode (· = metadata) := by
  cases metadata with
  | script metadata =>
    refine (reads_tagged (by rfl)).field ?_
    exact reads_script_declaration_metadata.field <| .nil rfl
  | module metadata =>
    refine (reads_tagged (by rfl)).field ?_
    exact reads_module_declaration_metadata.field <| .nil rfl

theorem reads_constant {constant : ConstantValue} :
    Reads blob 2 constant.encode ConstantValue.decode (· = constant) := by
  cases constant with
  | number bits =>
    rw [encode]
    refine (reads_tagged (by rfl)).field ?_
    exact reads_u64.field <| .nil rfl
  | boolean val =>
    cases val with
    | true | false =>
      rw [encode]
      refine (reads_tagged (by rfl)).field ?_
      exact .nil rfl
  | null | undefined | empty =>
    rw [encode]
    refine (reads_tagged (by rfl)).field ?_
    exact .nil rfl
  | string val =>
    refine (reads_tagged (by rfl)).field ?_
    exact reads_utf16.field <| .nil rfl
  | bigInt digits =>
    refine (reads_tagged (by rfl)).field <| .last <| reads_size.field <| (reads_raw rfl).field ?_
    rw [String.fromUTF8?, dif_pos digits.isValidUTF8]
    exact .nil rfl
  | wellKnownSymbol symbol =>
    have inverse : WellKnownSymbolKind.fromTag symbol.tag = some symbol := by
      cases symbol <;> rfl
    rw [encode]
    refine (reads_tagged (by rfl)).field ?_
    exact (reads_tagged inverse).field <| .nil rfl
  | abstractOperation operation =>
    have inverse : AbstractOperationKind.fromTag operation.tag = some operation := by
      cases operation <;> rfl
    rw [encode]
    refine (reads_tagged (by rfl)).field ?_
    exact (reads_tagged inverse).field <| .nil rfl

theorem reads_exception_handler {handler : ExceptionHandler} :
    Reads blob 2 handler.encode ExceptionHandler.decode (· = handler) :=
  reads_u32.field <| reads_u32.field <| reads_u32.field <| .nil rfl

theorem reads_source_map_entry {entry : SourceMapEntry} :
    Reads blob 2 entry.encode SourceMapEntry.decode (· = entry) :=
  reads_u32.field <| reads_u32.field <| reads_u32.field <| .nil rfl

theorem reads_local_variable {entry : LocalVariable} :
    Reads blob 2 entry.encode LocalVariable.decode (· = entry) :=
  reads_utf16.field <| reads_bool.field <| reads_bool.field <| .nil rfl

theorem reads_cache_counters {alignment : Nat} {counters : CacheCounters} :
    Reads blob alignment counters.encode CacheCounters.decode (· = counters) :=
  reads_u32.field <| reads_u32.field <| reads_u32.field <| reads_u32.field <|
    reads_u32.field <| reads_u32.field <| .nil rfl

theorem reads_class_element {elem : ClassElementRecord} :
    Reads blob 2 elem.encode ClassElementRecord.decode (· = elem) :=
  reads_u8.field <| reads_bool.field <|
    reads_bool.field <| reads_optional_utf16.field <|
    (reads_optional_eq fun _ _ => reads_u32).field <| reads_bool.field <|
    (reads_tagged (by cases elem.literalValueKind <;> rfl)).field <| reads_u64.field <|
    reads_optional_utf16.field <| .nil rfl

theorem reads_class_blueprint {blueprint : ClassBlueprintRecord} :
    Reads blob 2 blueprint.encode ClassBlueprintRecord.decode (· = blueprint) :=
  reads_optional_utf16.field <| reads_u64.field <| reads_u64.field <|
    reads_u32.field <| reads_bool.field <| reads_bool.field <|
    (reads_sequence_eq (fun _ _ => positive_cons positive_u8)
      fun _ _ => reads_class_element).field <| .nil rfl

theorem positive_constant {constant : ConstantValue} : Positive constant.encode := by
  cases constant with
  | boolean val =>
    cases val <;> rw [encode] <;> exact positive_cons positive_u8
  | _ =>
    rw [encode]
    exact positive_cons positive_u8

end
end Ladybone.BytecodeCache
