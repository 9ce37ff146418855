import Ladybone.BytecodeCache.Executable

/-!
# The cache gives back what was serialized

Every encoder pads relative to its own start and the decoder relative to the blob. The two
agree because every payload that holds padding starts at a multiple of the largest alignment
used inside it: this is the invariant the induction over nested functions carries.
-/

namespace Ladybone.BytecodeCache

open Support.Codec List Option

/-! ## What a decoded record stands for -/

/-- The decoded executable has the fields of the encoded one, its tables read back as they
were, and its bytecode stands aligned in the blob. -/
structure ExecutableBody.Kept (blob : Bytes) (body : ExecutableBody)
    (decoded : DecodedExecutableRecord) : Prop where
  header : decoded.header = body.header
  bytecode : decoded.bytecode.bytes = body.bytecode
  located : decoded.bytecode.Located blob
  aligned : bytecodeAlignment ∣ decoded.bytecode.offset
  identifierTable : decoded.identifierTable.values decodeUtf16 = some body.identifierTable
  propertyKeyTable : decoded.propertyKeyTable.values decodeUtf16 = some body.propertyKeyTable
  stringTable : decoded.stringTable.values decodeUtf16 = some body.stringTable
  constants : decoded.constants.values = some body.constants
  exceptionHandlers :
    decoded.exceptionHandlers.values ExceptionHandler.decode = some body.exceptionHandlers
  sourceMap : decoded.sourceMap.values SourceMapEntry.decode = some body.sourceMap
  localVariables : decoded.localVariables.values LocalVariable.decode = some body.localVariables
  classBlueprints :
    decoded.classBlueprints.values ClassBlueprintRecord.decode = some body.classBlueprints

mutual

def ExecutableRecord.Kept (blob : Bytes) : ExecutableRecord → DecodedExecutableRecord → Prop
  | .mk body sharedFunctions, decoded =>
    body.Kept blob decoded ∧
      ∃ functions, decoded.sharedFunctions.values DecodedFunctionRecord.decode = some functions ∧
        KeptFunctions blob sharedFunctions functions

def KeptFunctions (blob : Bytes) : List FunctionRecord → List DecodedFunctionRecord → Prop
  | [], [] => True
  | first :: rest, decoded :: others => first.Kept blob decoded ∧ KeptFunctions blob rest others
  | _, _ => False

def FunctionRecord.Kept (blob : Bytes) : FunctionRecord → DecodedFunctionRecord → Prop
  | .mk header precompiled, decoded =>
    decoded.header = header ∧
      ∃ executable, decoded.decodeExecutable = some executable ∧ precompiled.Kept blob executable

end

variable {functions : List FunctionRecord}

theorem kept_functions_of_forall₂ {blob : Bytes} {decoded : List DecodedFunctionRecord}
    (related : List.Forall₂ (FunctionRecord.Kept blob) functions decoded) :
    KeptFunctions blob functions decoded := by
  induction related with
  | nil => trivial
  | cons first _ ih => exact ⟨first, ih⟩

structure CompiledProgram.Kept (blob : Bytes) (compiled : CompiledProgram)
    (programType : ProgramType) (decoded : DecodedCacheBlob) : Prop where
  sameType : decoded.programType = programType
  hasTopLevelAwait : decoded.hasTopLevelAwait = compiled.hasTopLevelAwait
  isStrictMode : decoded.isStrictMode = compiled.isStrictMode
  metadata : decoded.metadata = compiled.metadata programType
  declarationFunctions :
    KeptFunctions blob compiled.declarationFunctions decoded.declarationFunctions
  kind : decoded.kind = compiled.kind
  executable : compiled.executable.Kept blob decoded.executable

/-! ## Tables -/

section
variable {blob : Bytes} {align unit : Nat}

structure Sequenced (blob : Bytes) (unit count : Nat) (records : Writer)
    (sequence : DecodedRecordSequence) : Prop where
  count : sequence.count = count
  embeds : Embeds blob records sequence.bytes
  aligned : unit ∣ sequence.bytes.offset

theorem reads_record_sequence {count : Nat} {records : Writer} (positive : 0 < unit)
    (divides : unit ∣ align)
    (enough : ∀ content, records 0 = some content → count ≤ content.length) :
    Reads blob align (DecodedRecordSequence.encodeWithAlignment unit count records)
      (DecodedRecordSequence.decodeWithAlignment unit) (Sequenced blob unit count records) := by
  refine reads_size.field ?_
  refine (reads_aligned_counted enough positive divides).cons fun payload holds => ?_
  exact .nil ⟨rfl, holds.1, holds.2⟩

theorem reads_table {α : Type} {item : α → Writer} {read : Reader α} {items : List α}
    (positive : ∀ {entry}, Positive (item entry))
    (reads : ∀ {entry}, Reads blob 2 (item entry) read (· = entry)) :
    Reads blob 8 (DecodedRecordSequence.encode items item) DecodedRecordSequence.decode
      fun sequence => sequence.values read = some items := by
  have enough : ∀ content, Writer.all (items.map item) 0 = some content →
      items.length ≤ content.length :=
    fun _ wrote => length_le_of_positive (fun _ _ => positive) wrote
  refine (reads_record_sequence (by decide) (by decide) enough).mono fun _ sequenced => ?_
  obtain ⟨values, whole, same⟩ := whole_times sequenced.embeds sequenced.aligned fun _ _ => reads
  rw [DecodedRecordSequence.values, sequenced.count, whole, eq_of_forall₂ same]

theorem reads_constant_table {constants : List ConstantValue} :
    Reads blob align (encodeConstantTable constants) DecodedConstantTable.decode
      fun table => table.values = some constants := by
  refine reads_size.field ?_
  have enough : ∀ content, Writer.all (constants.map ConstantValue.encode) 0 = some content →
      constants.length ≤ content.length :=
    fun _ wrote => length_le_of_positive (fun _ _ => positive_constant) wrote
  refine (reads_counted enough).cons fun payload embeds => ?_
  -- the payload is its own blob here: constants are read relative to its start
  have alone : Embeds payload.bytes (.all (constants.map ConstantValue.encode))
      ⟨0, payload.bytes⟩ := ⟨embeds.written, prefix_refl _⟩
  obtain ⟨values, whole, same⟩ := whole_times alone (Nat.dvd_zero 2) fun _ _ => reads_constant
  refine .nil ?_
  rw [DecodedConstantTable.values, show (⟨payload.bytes, 0⟩ : Input) =
    Payload.input ⟨0, payload.bytes⟩ from rfl, whole, eq_of_forall₂ same]

end

/-! ## Headers -/

section
variable {blob : Bytes}

theorem reads_executable_header {align : Nat} {hdr : ExecutableHeader} :
    Reads blob align hdr.encode ExecutableHeader.decode (· = hdr) :=
  reads_bool.field <| reads_u32.field <| reads_u32.field <|
    reads_cache_counters.field <| reads_bool.field <|
    (reads_optional_eq fun _ _ => reads_u32).field <| .nil rfl

theorem reads_function_sfd_metadata {metadata : FunctionSfdMetadata} :
    Reads blob 2 metadata.encode FunctionSfdMetadata.decode (· = metadata) :=
  reads_bool.field <| reads_bool.field <| reads_bool.field <| reads_u64.field <|
    reads_u64.field <| reads_bool.field <| reads_bool.field <| .nil rfl

theorem reads_class_field_initializer_name {initializer : ClassFieldInitializerName} :
    Reads blob 2 initializer.encode ClassFieldInitializerName.decode (· = initializer) :=
  reads_utf16.field <| reads_bool.field <| .nil rfl

theorem reads_function_header {hdr : FunctionHeader} :
    Reads blob 2 hdr.encode FunctionHeader.decode (· = hdr) :=
  reads_optional_utf16.field <| reads_u32.field <|
    reads_u32.field <| reads_i32.field <|
    reads_size.field <| (reads_tagged (by cases hdr.kind <;> rfl)).field <|
    reads_bool.field <| reads_bool.field <|
    (reads_optional_eq fun _ _ => reads_utf16Vector).field <|
    reads_bool.field <| reads_bool.field <|
    (reads_optional_eq fun _ _ => reads_class_field_initializer_name).field <|
    reads_function_sfd_metadata.field <| .nil rfl

theorem positive_function {fn : FunctionRecord} : Positive fn.encode := by
  obtain ⟨hdr, precompiled⟩ := fn
  exact positive_cons (positive_cons positive_optional)

end

/-! ## Nested functions -/

section
variable {blob : Bytes}

theorem reads_function_step {hdr : FunctionHeader} {precompiled : ExecutableRecord}
    (reads : Reads blob 8 precompiled.encode DecodedExecutableRecord.decode
      (precompiled.Kept blob)) :
    Reads blob 8 (FunctionRecord.mk hdr precompiled).encode DecodedFunctionRecord.decode
      ((FunctionRecord.mk hdr precompiled).Kept blob) := by
  refine (reads_function_header.coarser (by decide)).field ?_
  refine (reads_aligned_counted (fun _ _ => Nat.zero_le _) (by decide) (dvd_refl 8)).cons
    fun payload holds => ?_
  obtain ⟨exe, whole, kept⟩ := whole_of_reads holds.1 holds.2 reads
  refine .nil ?_
  exact ⟨rfl, exe, whole, kept⟩

theorem functions_kept {sequence : DecodedRecordSequence}
    (sequenced : Sequenced blob bytecodeAlignment functions.length (encodeFunctions functions)
      sequence) (reads : ∀ fn ∈ functions,
      Reads blob 8 fn.encode DecodedFunctionRecord.decode (fn.Kept blob)) :
    ∃ decoded, sequence.values DecodedFunctionRecord.decode = some decoded ∧
      KeptFunctions blob functions decoded := by
  have embeds := sequenced.embeds
  rw [encode_functions_eq] at embeds
  obtain ⟨decoded, whole, related⟩ := whole_times embeds sequenced.aligned reads
  refine ⟨decoded, ?_, kept_functions_of_forall₂ related⟩
  rw [DecodedRecordSequence.values, sequenced.count, whole]

theorem reads_shared_functions :
    Reads blob 8
      (DecodedRecordSequence.encodeWithAlignment bytecodeAlignment functions.length
        (encodeFunctions functions))
      (DecodedRecordSequence.decodeWithAlignment bytecodeAlignment)
      (Sequenced blob bytecodeAlignment functions.length (encodeFunctions functions)) := by
  refine reads_record_sequence (by decide) (dvd_refl 8) fun content wrote => ?_
  rw [encode_functions_eq] at wrote
  exact length_le_of_positive (fun _ _ => positive_function) wrote

theorem reads_executable_step {body : ExecutableBody} (reads : ∀ fn ∈ functions,
      Reads blob 8 fn.encode DecodedFunctionRecord.decode (fn.Kept blob)) :
    Reads blob 8 (ExecutableRecord.mk body functions).encode DecodedExecutableRecord.decode
      ((ExecutableRecord.mk body functions).Kept blob) := by
  refine reads_executable_header.field ?_
  refine (reads_aligned_counted (fun _ _ => Nat.zero_le _) (by decide) (dvd_refl 8)).cons
    fun bytecode placed => ?_
  refine (reads_table positive_utf16 reads_utf16).cons fun identifiers sameIdentifiers => ?_
  refine (reads_table positive_utf16 reads_utf16).cons fun keys sameKeys => ?_
  refine (reads_table positive_utf16 reads_utf16).cons fun strings sameStrings => ?_
  refine reads_constant_table.cons fun constants sameConstants => ?_
  refine (reads_table (positive_cons positive_u32)
    reads_exception_handler).cons fun handlers sameHandlers => ?_
  refine (reads_table (positive_cons positive_u32)
    reads_source_map_entry).cons fun sourceMap sameSourceMap => ?_
  refine (reads_table (positive_cons positive_utf16)
    reads_local_variable).cons fun locals sameLocals => ?_
  refine reads_shared_functions.cons fun shared sequenced => ?_
  refine (reads_table (positive_cons positive_optional)
    reads_class_blueprint).cons fun blueprints sameBlueprints => ?_
  refine .nil ?_
  refine ⟨?_, functions_kept sequenced reads⟩
  exact
    { header := rfl
      bytecode := (some.inj placed.1.written).symm
      located := placed.1.located
      aligned := placed.2
      identifierTable := sameIdentifiers
      propertyKeyTable := sameKeys
      stringTable := sameStrings
      constants := sameConstants
      exceptionHandlers := sameHandlers
      sourceMap := sameSourceMap
      localVariables := sameLocals
      classBlueprints := sameBlueprints }

mutual

theorem reads_executable : (exe : ExecutableRecord) →
    Reads blob 8 exe.encode DecodedExecutableRecord.decode (exe.Kept blob)
  | .mk _ functions => reads_executable_step (reads_functions functions)

theorem reads_functions : (functions : List FunctionRecord) → ∀ fn ∈ functions,
    Reads blob 8 fn.encode DecodedFunctionRecord.decode (fn.Kept blob)
  | [] => forall_mem_nil _
  | first :: rest => forall_mem_cons.mpr ⟨reads_function first, reads_functions rest⟩

theorem reads_function : (fn : FunctionRecord) →
    Reads blob 8 fn.encode DecodedFunctionRecord.decode (fn.Kept blob)
  | .mk _ precompiled => reads_function_step (reads_executable precompiled)

end
end

/-! ## The blob -/

section
variable {blob : Bytes} (compiled : CompiledProgram) (programType : ProgramType)
  (sourceHash : SourceHash)

theorem reads_program_type {programType : ProgramType} :
    Reads blob 8 (.u8 programType.tag) (.tagged ProgramType.fromTag) (· = programType) := by
  have inverse : ProgramType.fromTag programType.tag = some programType := by
    cases programType <;> rfl
  exact reads_tagged inverse

theorem reads_declaration_functions {functions : List FunctionRecord} :
    Reads blob 8
      (DecodedRecordSequence.encodeWithAlignment bytecodeAlignment functions.length
        (encodeFunctions functions))
      decodeDeclarationFunctions (KeptFunctions blob functions) := by
  intro length base written rest wrote aligned there
  obtain ⟨sequence, ran, sequenced⟩ :=
    reads_shared_functions length base written rest wrote aligned there
  obtain ⟨decoded, values, kept⟩ := functions_kept sequenced (reads_functions functions)
  refine ⟨decoded, ?_, kept⟩
  rw [decodeDeclarationFunctions, Reader.run_bind, ran, bind_some]
  simp only [values]
  rfl

theorem reads_cache_blob : Reads blob 8 (encodeCacheBlob compiled programType sourceHash)
      (DecodedCacheBlob.decode programType sourceHash) (compiled.Kept blob programType) := by
  refine (reads_raw rfl).field <| .require (beq_self_eq_true _) ?_
  refine reads_u32.field <| .require (beq_self_eq_true _) ?_
  refine reads_program_type.field <| .require (beq_self_eq_true _) ?_
  refine (reads_raw sourceHash.property).field <| .require (beq_self_eq_true _) ?_
  refine reads_bool.field ?_
  refine reads_bool.field ?_
  refine (reads_declaration_metadata.coarser (by decide)).field ?_
  refine reads_declaration_functions.cons fun functions kept => ?_
  have inverse : ProgramKind.fromTag compiled.kind.tag = some compiled.kind := by
    cases compiled.kind <;> rfl
  refine (reads_tagged inverse).field ?_
  refine (reads_executable compiled.executable).cons fun exe keptExecutable => ?_
  exact .nil ⟨rfl, rfl, rfl, rfl, kept, rfl, keptExecutable⟩

variable {compiled programType sourceHash}

theorem rejects_cache_blob {otherType : ProgramType} {otherHash : SourceHash}
    (other : otherType ≠ programType ∨ otherHash ≠ sourceHash) :
    Rejects blob 8 (encodeCacheBlob compiled programType sourceHash)
      (DecodedCacheBlob.decode otherType otherHash) := by
  refine .field (reads_raw rfl) <| .passing (beq_self_eq_true _) ?_
  refine .field reads_u32 <| .passing (beq_self_eq_true _) ?_
  refine .field reads_program_type ?_
  by_cases sameType : otherType = programType
  · have otherBytes : sourceHash.val ≠ otherHash.val := by
      intro same
      exact other.elim (absurd sameType) (absurd (Subtype.ext same.symm))
    refine .passing (beq_iff_eq.mpr sameType.symm) ?_
    exact .field (reads_raw sourceHash.property) <| .failing (beq_eq_false_iff_ne.mpr otherBytes)
  · exact .failing (beq_eq_false_iff_ne.mpr fun same => sameType same.symm)

theorem decode_leaves_rest {serialized rest : Bytes}
    (wrote : serializeCompiledProgram compiled programType sourceHash = some serialized)
    {expectedType : ProgramType} {expectedHash : SourceHash} {decoded : DecodedCacheBlob}
    {final : Input}
    (ran : (DecodedCacheBlob.decode expectedType expectedHash).run ⟨serialized ++ rest, 0⟩ =
      some (decoded, final)) :
    final.bytes = rest := by
  by_cases other : expectedType ≠ programType ∨ expectedHash ≠ sourceHash
  · have rejected := rejects_cache_blob other 0 0 serialized rest wrote (Nat.dvd_zero 8)
      (prefix_refl (serialized ++ rest))
    rw [ran] at rejected
    cases rejected
  · obtain ⟨rfl, rfl⟩ : expectedType = programType ∧ expectedHash = sourceHash := by
      simpa only [not_or, not_not] using other
    obtain ⟨_, read, -⟩ := reads_cache_blob compiled expectedType expectedHash 0 0 serialized rest
      wrote (Nat.dvd_zero 8) (prefix_refl (serialized ++ rest))
    rw [ran] at read
    cases read
    rfl

theorem decode_blob_append {serialized extra : Bytes}
    (wrote : serializeCompiledProgram compiled programType sourceHash = some serialized)
    (more : extra ≠ []) (expectedType : ProgramType) (expectedHash : SourceHash) :
    decodeBlob (serialized ++ extra) expectedType expectedHash = none := by
  by_contra accepted
  obtain ⟨decoded, accepted⟩ := ne_none_iff_exists'.mp accepted
  obtain ⟨⟨value, final⟩, ran, done⟩ := bind_eq_some_iff.mp accepted
  simp [decode_leaves_rest wrote ran, more] at done

theorem decode_blob_prefix {shorter extra : Bytes}
    (wrote : serializeCompiledProgram compiled programType sourceHash = some (shorter ++ extra))
    (more : extra ≠ []) (expectedType : ProgramType) (expectedHash : SourceHash) :
    decodeBlob shorter expectedType expectedHash = none := by
  by_contra accepted
  obtain ⟨decoded, accepted⟩ := ne_none_iff_exists'.mp accepted
  obtain ⟨⟨value, rest, final⟩, ran, done⟩ := bind_eq_some_iff.mp accepted
  -- with the bytes that are missing the same run leaves them over, and nothing is left of the blob
  have longer := (DecodedCacheBlob.decode expectedType expectedHash).unbounded extra ran
  rw [← append_nil (shorter ++ extra)] at longer
  have empty : rest ++ extra = [] := decode_leaves_rest wrote longer
  exact more (append_eq_nil_iff.mp empty).2

end

/-! ## A program with a nested function -/

def noCaches : CacheCounters where
  propertyLookupCacheCount := 0
  globalVariableCacheCount := 0
  environmentCoordinateCacheCount := 0
  templateObjectCacheCount := 0
  objectShapeCacheCount := 0
  objectPropertyIteratorCacheCount := 0

def plainBody (bytecode : Bytes) (lengthIdentifier : Option UInt32) : ExecutableBody where
  header :=
    { strict := false, numberOfRegisters := 1, numberOfArguments := 0, cacheCounters := noCaches,
      thisValueNeedsEnvironmentResolution := false, lengthIdentifier }
  bytecode
  identifierTable := []
  propertyKeyTable := []
  stringTable := []
  constants := []
  exceptionHandlers := []
  sourceMap := []
  localVariables := []
  classBlueprints := []

def plainFunction (name : Utf16String) (precompiled : ExecutableRecord) : FunctionRecord :=
  .mk
    { name := some name, sourceTextStart := 0, sourceTextEnd := 0, functionLength := 0,
      formalParameterCount := 0, kind := .normal, isStrictMode := false,
      isArrowFunction := false, parameterNames := some [], usesThis := false,
      usesThisFromEnvironment := false, classFieldInitializerName := none, metadata :=
        { usesThis := false, thisValueNeedsEnvironmentResolution := false,
          functionEnvironmentNeeded := false, functionEnvironmentBindingsCount := 0,
          varEnvironmentBindingsCount := 0, mightNeedArguments := false, containsEval := false } }
    precompiled

def plainScript (executable : ExecutableRecord) : CompiledProgram where
  hasTopLevelAwait := false
  isStrictMode := false
  scriptMetadata := ⟨[], [], [], [], [], []⟩
  moduleMetadata := ⟨[], [], [], [], [], none, [], [], []⟩
  declarationFunctions := []
  kind := .scriptOrModule
  executable

def zeroHash : SourceHash := ⟨List.replicate sourceHashSize 0, rfl⟩

/-- A script with a string of an unpaired surrogate and a function of an odd name. -/
def nestedScript : CompiledProgram :=
  plainScript (.mk
    { plainBody (List.replicate 16 0) none with
      stringTable := [[0xD800], [0x61, 0x62]]
      constants := [.string [0x61], .bigInt "12", .boolean true] }
    [plainFunction [0x66] (.mk (plainBody (List.replicate 8 0) none) [])])

end Ladybone.BytecodeCache
