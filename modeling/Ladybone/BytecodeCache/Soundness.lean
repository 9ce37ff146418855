import Ladybone.BytecodeCache.RoundTrip
import Ladybone.BytecodeCache.Validation

/-!
# What validation of a cached blob guarantees

An accepted blob may still be corrupted on purpose. For each of its executables the checks
cover the fields of every instruction, the labels and the exception handlers. Two things no
check looks at: the length identifier and the class blueprints of nested executables, and what
the last instruction of a buffer does. The main theorem says that these are all.
-/

namespace Ladybone.BytecodeCache

open Support.Codec Support.Checks List Reader

/-! ## What an executable may rely on -/

/-- The positions an instruction reads, with the type of what is there. -/
def OpDef.slots (op : OpDef) (bytes : Bytes) (start : Nat) : List (FieldType × Nat) :=
  (op.fields.map fun (type, offset) => (type, start + offset)) ++ match op.array with
    | none => []
    | some array => (array.positions bytes start).map fun position => (array.element, position)

def FieldType.limit (executable : DecodedExecutableRecord) : FieldType → Option Nat
  | .operand | .optionalOperand =>
    some (executable.header.numberOfRegisters.toNat + executable.localVariables.count +
      executable.constants.count + executable.header.numberOfArguments.toNat)
  | .identifierTableIndex | .optionalIdentifierTableIndex => some executable.identifierTable.count
  | .stringTableIndex | .optionalStringTableIndex => some executable.stringTable.count
  | .propertyKeyTableIndex => some executable.propertyKeyTable.count
  | .propertyLookupCacheIndex =>
    some executable.header.cacheCounters.propertyLookupCacheCount.toNat
  | .globalVariableCacheIndex =>
    some executable.header.cacheCounters.globalVariableCacheCount.toNat
  | .environmentCoordinateCacheIndex =>
    some executable.header.cacheCounters.environmentCoordinateCacheCount.toNat
  | .templateObjectCacheIndex =>
    some executable.header.cacheCounters.templateObjectCacheCount.toNat
  | .objectShapeCacheIndex => some executable.header.cacheCounters.objectShapeCacheCount.toNat
  | .objectPropertyIteratorCacheIndex =>
    some executable.header.cacheCounters.objectPropertyIteratorCacheCount.toNat
  | .sharedFunctionDataIndex => some executable.sharedFunctions.count
  | .classBlueprintIndex => some executable.classBlueprints.count
  | .completionType => some 6
  | .iteratorHint => some 2
  | .environmentMode => some 2
  | .putKind => some 5
  | .argumentsKind => some 2
  | .functionNamePrefix => some 3
  | .label | .optionalLabel | .unchecked => none

/-- Fields where the largest `u32` stands for no value. -/
def FieldType.mayBeAbsent : FieldType → Bool
  | .optionalOperand | .optionalIdentifierTableIndex | .optionalStringTableIndex
  | .propertyLookupCacheIndex | .globalVariableCacheIndex | .templateObjectCacheIndex
  | .objectShapeCacheIndex | .objectPropertyIteratorCacheIndex => true
  | _ => false

def labelAt (bytes : Bytes) : FieldType → Nat → Option Nat
  | .label, position => some (readU32 bytes position).toNat
  | .optionalLabel, position =>
    if readU8 bytes (position + 4) ≠ 0 then some (readU32 bytes position).toNat else none
  | _, _ => none

structure FieldWithin (executable : DecodedExecutableRecord) (starts : List Nat)
    (slot : FieldType × Nat) : Prop where
  index : ∀ limit, slot.1.limit executable = some limit →
    (readU32 executable.bytecode.bytes slot.2).toNat < limit ∨
      slot.1.mayBeAbsent = true ∧ readU32 executable.bytecode.bytes slot.2 = invalidIndex
  label : ∀ target, labelAt executable.bytecode.bytes slot.1 slot.2 = some target → target ∈ starts

def instructionStarts (ops : InstructionSet) (bytes : Bytes) : List Nat :=
  match collectOffsets ops bytes bytes.length 0 with
  | .ok starts => starts
  | .error _ => []

section
variable (ops : InstructionSet) (bytes : Bytes) (handlers : List ExceptionHandler)

/-- How execution can go on: behind an instruction that continues, at a label it holds, or at
the handler of a range it is in. -/
inductive Step : Nat → Nat → Prop
  | next {start size : Nat} {op : OpDef} (found : ops.find (readU8 bytes start) = some op)
      (continues : op.continues = true)
      (sized : instructionLengthFromBytes ops (readU8 bytes start) bytes start = .ok size) :
      Step start (start + size)
  | jump {start target : Nat} {op : OpDef} {slot : FieldType × Nat}
      (found : ops.find (readU8 bytes start) = some op) (held : slot ∈ op.slots bytes start)
      (label : labelAt bytes slot.1 slot.2 = some target) : Step start target
  | throw {start : Nat} {handler : ExceptionHandler} (covered : handler ∈ handlers)
      (after : handler.startOffset.toNat ≤ start) (before : start < handler.endOffset.toNat) :
      Step start handler.handlerOffset.toNat

/-- Where execution gets, from the start of the buffer or any label or handler of it. -/
inductive Reached : Nat → Prop
  | start : Reached 0
  | label {start target : Nat} {op : OpDef} {slot : FieldType × Nat}
      (instruction : start ∈ instructionStarts ops bytes)
      (found : ops.find (readU8 bytes start) = some op) (held : slot ∈ op.slots bytes start)
      (label : labelAt bytes slot.1 slot.2 = some target) : Reached target
  | handler {handler : ExceptionHandler} (listed : handler ∈ handlers) :
      Reached handler.handlerOffset.toNat
  | step {start next : Nat} (before : Reached start) (step : Step ops bytes handlers start next) :
      Reached next

end

structure HandlerInOrder (bytes : Bytes) (starts : List Nat) (handler : ExceptionHandler) :
    Prop where
  start : handler.startOffset.toNat ∈ starts ∨ handler.startOffset.toNat = bytes.length
  finish : handler.endOffset.toNat ∈ starts ∨ handler.endOffset.toNat = bytes.length
  order : handler.startOffset ≤ handler.endOffset
  handler : handler.handlerOffset.toNat ∈ starts

structure IndicesWithin (executable : DecodedExecutableRecord) : Prop where
  lengthIdentifier : ∀ index, executable.header.lengthIdentifier = some index →
    index.toNat < executable.propertyKeyTable.count
  constructors : ∀ blueprints,
    executable.classBlueprints.values ClassBlueprintRecord.decode = some blueprints →
      ∀ blueprint ∈ blueprints,
        blueprint.constructorSfdIndex.toNat < executable.sharedFunctions.count
  elements : ∀ blueprints,
    executable.classBlueprints.values ClassBlueprintRecord.decode = some blueprints →
      ∀ blueprint ∈ blueprints, ∀ element ∈ blueprint.elements, ∀ index,
        element.sharedFunctionDataIndex = some index →
          index.toNat < executable.sharedFunctions.count

structure Safe (ops : InstructionSet) (executable : DecodedExecutableRecord) : Prop where
  fields : ∀ start ∈ instructionStarts ops executable.bytecode.bytes, ∀ op,
    ops.find (readU8 executable.bytecode.bytes start) = some op →
      ∀ slot ∈ op.slots executable.bytecode.bytes start,
        FieldWithin executable (instructionStarts ops executable.bytecode.bytes) slot
  indices : IndicesWithin executable
  handlers : ∀ handlers,
    executable.exceptionHandlers.values ExceptionHandler.decode = some handlers →
      ∀ handler ∈ handlers, HandlerInOrder executable.bytecode.bytes
        (instructionStarts ops executable.bytecode.bytes) handler
  control : ∀ handlers,
    executable.exceptionHandlers.values ExceptionHandler.decode = some handlers →
      ∀ position, Reached ops executable.bytecode.bytes handlers position →
        position ∈ instructionStarts ops executable.bytecode.bytes

/-- There is an instruction to start with, and none that execution gets to goes on behind the
end. -/
structure StaysInside (ops : InstructionSet) (executable : DecodedExecutableRecord) : Prop where
  nonempty : executable.bytecode.bytes ≠ []
  last : ∀ handlers,
    executable.exceptionHandlers.values ExceptionHandler.decode = some handlers →
      ∀ start, Reached ops executable.bytecode.bytes handlers start → ∀ op size,
        ops.find (readU8 executable.bytecode.bytes start) = some op → op.continues = true →
          instructionLengthFromBytes ops (readU8 executable.bytecode.bytes start)
            executable.bytecode.bytes start = .ok size →
            start + size ≠ executable.bytecode.bytes.length

/-! ## The executables of a blob -/

inductive Nested (blob : DecodedCacheBlob) : DecodedExecutableRecord → Prop
  | declaration {function : DecodedFunctionRecord} {executable : DecodedExecutableRecord}
      (declared : function ∈ blob.declarationFunctions)
      (decoded : function.decodeExecutable = some executable) : Nested blob executable
  | program {functions : List DecodedFunctionRecord} {function : DecodedFunctionRecord}
      {executable : DecodedExecutableRecord}
      (shared : blob.executable.sharedFunctions.values DecodedFunctionRecord.decode =
        some functions)
      (member : function ∈ functions) (decoded : function.decodeExecutable = some executable) :
      Nested blob executable
  | shared {outer : DecodedExecutableRecord} {functions : List DecodedFunctionRecord}
      {function : DecodedFunctionRecord} {executable : DecodedExecutableRecord}
      (nested : Nested blob outer)
      (shared : outer.sharedFunctions.values DecodedFunctionRecord.decode = some functions)
      (member : function ∈ functions) (decoded : function.decodeExecutable = some executable) :
      Nested blob executable

def Holds (blob : DecodedCacheBlob) (executable : DecodedExecutableRecord) : Prop :=
  executable = blob.executable ∨ Nested blob executable

/-! ## Records in sequence -/

section
variable {α ε : Type} {problem : ε} {item : Reader α} {cb : α → Except ε Unit}

theorem whole_times_succ (count : Nat) (input : Input) :
    (Reader.times item (count + 1)).whole input = (item.run input).bind fun (val, rest) =>
        ((Reader.times item count).whole rest).map fun vals => val :: vals := by
  rw [whole, times, run_bind]
  cases ran : item.run input with
  | none => rfl
  | some read =>
    simp only [Option.bind_some, run_bind, whole]
    cases others : (times item count).run read.2 with
    | none => rfl
    | some =>
      simp only [Option.bind_some, run_pure]
      split <;> rfl

theorem for_each_from_eq_ok {count : Nat} {input : Input} :
    DecodedRecordSequence.forEachFrom problem item cb count input = .ok () ↔
      ∃ vals, (Reader.times item count).whole input = some vals ∧
        ∀ val ∈ vals, cb val = .ok () := by
  induction count generalizing input with
  | zero =>
    rw [DecodedRecordSequence.forEachFrom, ensure_eq_ok, List.isEmpty_iff]
    constructor
    · intro empty
      refine ⟨[], ?_, forall_mem_nil _⟩
      simp [times, whole, run_pure, empty]
    · rintro ⟨vals, read, -⟩
      by_contra left
      simp [times, whole, run_pure, left] at read
  | succ _ ih =>
    rw [DecodedRecordSequence.forEachFrom, bind_eq_ok, whole_times_succ]
    constructor
    · rintro ⟨⟨val, rest⟩, ran, done⟩
      obtain ⟨passed, done⟩ := check_bind_eq_ok.mp done
      obtain ⟨vals, read, all⟩ := ih.mp done
      refine ⟨val :: vals, ?_, forall_mem_cons.mpr ⟨passed, all⟩⟩
      rw [present_eq_ok.mp ran]
      simp [read]
    · rintro ⟨vals, read, all⟩
      obtain ⟨⟨val, rest⟩, ran, read⟩ := Option.bind_eq_some_iff.mp read
      obtain ⟨others, readOthers, rfl⟩ := Option.map_eq_some_iff.mp read
      obtain ⟨passed, all⟩ := forall_mem_cons.mp all
      refine ⟨(val, rest), present_eq_ok.mpr ran, ?_⟩
      exact check_bind_eq_ok.mpr ⟨passed, ih.mpr ⟨others, readOthers, all⟩⟩

end

/-! ## The first pass -/

section
variable {ops : InstructionSet} {bytes : Bytes} {starts : List Nat} {start size : Nat}

theorem validate_length_ok (ok : validateLength ops bytes start = .ok size) :
    instructionLengthFromBytes ops (readU8 bytes start) bytes start = .ok size ∧ 0 < size ∧
      start + size ≤ bytes.length := by
  obtain ⟨-, ok⟩ := check_bind_eq_ok.mp ok
  obtain ⟨-, ok⟩ := check_bind_eq_ok.mp ok
  obtain ⟨length, sized, ok⟩ := bind_eq_ok.mp ok
  obtain ⟨positive, ok⟩ := check_bind_eq_ok.mp ok
  obtain ⟨inside, ok⟩ := check_bind_eq_ok.mp ok
  cases ok
  rw [ensure_eq_ok, decide_eq_true_eq] at positive inside
  exact ⟨map_error_eq_ok.mp sized, Nat.pos_of_ne_zero positive.1, inside⟩

inductive Tight (ops : InstructionSet) (bytes : Bytes) : Nat → List Nat → Prop
  | done {start : Nat} (ended : start = bytes.length) : Tight ops bytes start []
  | cons {start size : Nat} {rest : List Nat} (inside : start < bytes.length)
      (sized : instructionLengthFromBytes ops (readU8 bytes start) bytes start = .ok size)
      (tight : Tight ops bytes (start + size) rest) : Tight ops bytes start (start :: rest)

theorem tight_of_collect_offsets {rounds : Nat}
    (within : start ≤ bytes.length) (enough : bytes.length ≤ start + rounds)
    (ok : collectOffsets ops bytes rounds start = .ok starts) : Tight ops bytes start starts := by
  induction rounds generalizing start starts with
  | zero =>
    cases ok
    exact .done (by omega)
  | succ _ ih =>
    rw [collectOffsets] at ok
    split at ok
    · rename_i inside
      obtain ⟨size, sized, ok⟩ := bind_eq_ok.mp ok
      obtain ⟨rest, collected, ok⟩ := bind_eq_ok.mp ok
      cases ok
      obtain ⟨length, positive, fits⟩ := validate_length_ok sized
      exact .cons inside length (ih fits (by omega) collected)
    · cases ok
      exact .done (by omega)

theorem Tight.inside (tight : Tight ops bytes start starts) :
    ∀ pos ∈ starts, pos < bytes.length := by
  induction tight with
  | done => exact forall_mem_nil _
  | cons inside _ _ ih => exact forall_mem_cons.mpr ⟨inside, ih⟩

theorem Tight.first (tight : Tight ops bytes start starts)
    (inside : start < bytes.length) : start ∈ starts := by
  cases tight with
  | done => omega
  | cons => exact mem_cons_self

theorem Tight.next (tight : Tight ops bytes start starts) {pos : Nat} (mem : pos ∈ starts)
    (sized : instructionLengthFromBytes ops (readU8 bytes pos) bytes pos = .ok size) :
    pos + size ∈ starts ∨ pos + size = bytes.length := by
  induction tight with
  | done => exact absurd mem not_mem_nil
  | @cons _ _ _ _ here tight ih =>
    rcases mem_cons.mp mem with rfl | mem
    · rw [here] at sized
      cases sized
      cases tight with
      | done ended => exact .inr ended
      | cons => exact .inl (mem_cons_of_mem _ mem_cons_self)
    · exact (ih mem).imp_left (mem_cons_of_mem _)

end

/-! ## Fields -/

section
variable {raw bound : UInt32} {problem : ValidationErrorKind} {type : FieldType}

theorem ensure_lt (ok : ensure (raw < bound) problem = .ok ()) : raw.toNat < bound.toNat := by
  rwa [ensure_eq_ok, decide_eq_true_eq] at ok

theorem check_required_index_ok (ok : checkRequiredIndex raw bound problem = .ok ()) :
    raw.toNat < bound.toNat := by
  rw [checkRequiredIndex, ensure_eq_ok, decide_eq_true_eq] at ok
  exact ok.2

theorem check_optional_index_ok {absent : UInt32}
    (ok : checkOptionalIndex absent raw bound problem = .ok ()) :
    raw.toNat < bound.toNat ∨ raw = absent := by
  unfold checkOptionalIndex at ok
  split at ok
  · rename_i same
    exact .inr same
  · exact .inl (ensure_lt ok)

theorem toNat_ofNat_le (count : Nat) : (UInt32.ofNat count).toNat ≤ count := by
  exact Nat.mod_le _ _

theorem toNat_saturating_add_le (left right : UInt32) :
    (saturatingAdd left right).toNat ≤ left.toNat + right.toNat :=
  (toNat_ofNat_le _).trans (Nat.min_le_left _ _)

theorem operand_limit_le (exe : DecodedExecutableRecord) :
    exe.bounds.operandLimit.toNat ≤
      exe.header.numberOfRegisters.toNat + exe.localVariables.count +
        exe.constants.count + exe.header.numberOfArguments.toNat := by
  have locals := toNat_ofNat_le exe.localVariables.count
  have constants := toNat_ofNat_le exe.constants.count
  have first := toNat_saturating_add_le exe.bounds.numberOfRegisters exe.bounds.numberOfLocals
  have second := toNat_saturating_add_le (saturatingAdd exe.bounds.numberOfRegisters
    exe.bounds.numberOfLocals) exe.bounds.numberOfConstants
  have third := toNat_saturating_add_le (saturatingAdd (saturatingAdd
    exe.bounds.numberOfRegisters exe.bounds.numberOfLocals)
    exe.bounds.numberOfConstants) exe.bounds.numberOfArguments
  simp only [DecodedExecutableRecord.bounds, ValidatorBounds.operandLimit] at *
  omega

variable {exe : DecodedExecutableRecord} {starts : List Nat} {pos : Nat}

theorem validate_operand_ok
    (ok : validateOperand raw ⟨exe.bounds, exe.bytecode.bytes, starts⟩ = .ok ()) :
    raw.toNat < exe.header.numberOfRegisters.toNat + exe.localVariables.count +
      exe.constants.count + exe.header.numberOfArguments.toNat := by
  unfold validateOperand at ok
  split at ok
  · cases ok
  · exact (ensure_lt ok).trans_le (operand_limit_le exe)

theorem validate_label_ok {address : UInt32} {context : ValidationContext}
    (ok : validateLabel address context = .ok ()) : address.toNat ∈ context.validOffsets := by
  rwa [validateLabel, ensure_eq_ok, decide_eq_true_eq] at ok

theorem FieldWithin.of_index {limit : Nat} (sized : type.limit exe = some limit)
    (unlabelled : labelAt exe.bytecode.bytes type pos = none)
    (index : (readU32 exe.bytecode.bytes pos).toNat < limit ∨
      type.mayBeAbsent = true ∧ readU32 exe.bytecode.bytes pos = invalidIndex) :
    FieldWithin exe starts (type, pos) where
  index := by
    intro other same
    rw [sized] at same
    cases same
    exact index
  label := by
    intro target found
    rw [unlabelled] at found
    cases found

theorem FieldWithin.of_label (unsized : type.limit exe = none)
    (label : ∀ target, labelAt exe.bytecode.bytes type pos = some target →
      target ∈ starts) : FieldWithin exe starts (type, pos) where
  index := by
    intro limit same
    rw [unsized] at same
    cases same
  label := label

theorem validate_field_ok (ok : validateField ⟨exe.bounds, exe.bytecode.bytes, starts⟩ type pos =
      .ok ()) : FieldWithin exe starts (type, pos) := by
  cases type with
  | operand => exact .of_index rfl rfl (.inl (validate_operand_ok ok))
  | optionalOperand =>
    refine .of_index rfl rfl ?_
    simp only [validateField, validateOptionalOperand] at ok
    split at ok
    · rename_i absent
      exact .inr ⟨rfl, absent⟩
    · exact .inl (validate_operand_ok ok)
  | label =>
    refine .of_label rfl fun target same => ?_
    cases same
    exact validate_label_ok ok
  | optionalLabel =>
    refine .of_label rfl fun target same => ?_
    simp only [labelAt] at same
    simp only [validateField] at ok
    split at same
    · rename_i flagged
      rw [if_pos flagged] at ok
      cases same
      exact validate_label_ok ok
    · cases same
  | identifierTableIndex | stringTableIndex | propertyKeyTableIndex =>
    exact .of_index rfl rfl (.inl ((check_required_index_ok ok).trans_le (toNat_ofNat_le _)))
  | optionalIdentifierTableIndex | optionalStringTableIndex =>
    exact .of_index rfl rfl ((check_optional_index_ok ok).imp
      (fun below => below.trans_le (toNat_ofNat_le _)) fun absent => ⟨rfl, absent⟩)
  | sharedFunctionDataIndex | classBlueprintIndex =>
    exact .of_index rfl rfl (.inl ((ensure_lt ok).trans_le (toNat_ofNat_le _)))
  | environmentCoordinateCacheIndex | completionType | iteratorHint | environmentMode
  | putKind | argumentsKind =>
    exact .of_index rfl rfl (.inl (ensure_lt ok))
  | functionNamePrefix => exact .of_index rfl rfl (.inl (ensure_lt ok))
  | unchecked => exact .of_label rfl fun _ same => absurd same (by simp [labelAt])
  | _ =>
    exact .of_index rfl rfl ((check_optional_index_ok ok).imp id fun absent => ⟨rfl, absent⟩)

theorem validate_instruction_ok {ops : InstructionSet} {start : Nat} {op : OpDef}
    (found : ops.find (readU8 exe.bytecode.bytes start) = some op)
    (ok : validateInstruction ops (readU8 exe.bytecode.bytes start)
      ⟨exe.bounds, exe.bytecode.bytes, starts⟩ start = .ok ()) :
    ∀ slot ∈ op.slots exe.bytecode.bytes start, FieldWithin exe starts slot := by
  rw [validateInstruction, found] at ok
  obtain ⟨fields, array⟩ := check_bind_eq_ok.mp ok
  rw [each_eq_ok] at fields
  intro slot mem
  rcases mem_append.mp mem with mem | mem
  · obtain ⟨⟨type, offset⟩, listed, rfl⟩ := mem_map.mp mem
    exact validate_field_ok (fields (type, offset) listed)
  · cases trailing : op.array with
    | none =>
      rw [trailing] at mem
      exact absurd mem not_mem_nil
    | some =>
      rw [trailing] at mem array
      obtain ⟨place, listed, rfl⟩ := mem_map.mp mem
      obtain ⟨-, elements⟩ := check_bind_eq_ok.mp array
      exact validate_field_ok (each_eq_ok.mp elements place listed)

end

/-! ## One executable -/

structure Validated (ops : InstructionSet) (executable : DecodedExecutableRecord)
    (handlers : List ExceptionHandler) : Prop where
  decoded : executable.exceptionHandlers.values ExceptionHandler.decode = some handlers
  tight : Tight ops executable.bytecode.bytes 0 (instructionStarts ops executable.bytecode.bytes)
  fields : ∀ start ∈ instructionStarts ops executable.bytecode.bytes, ∀ op,
    ops.find (readU8 executable.bytecode.bytes start) = some op →
      ∀ slot ∈ op.slots executable.bytecode.bytes start,
        FieldWithin executable (instructionStarts ops executable.bytecode.bytes) slot
  inOrder : ∀ handler ∈ handlers, HandlerInOrder executable.bytecode.bytes
    (instructionStarts ops executable.bytecode.bytes) handler

theorem validate_exception_handler_ok {bytes : Bytes} {starts : List Nat}
    {handler : ExceptionHandler}
    (ok : validateExceptionHandler bytes starts handler = .ok ()) :
    HandlerInOrder bytes starts handler := by
  obtain ⟨start, ok⟩ := check_bind_eq_ok.mp ok
  obtain ⟨finish, ok⟩ := check_bind_eq_ok.mp ok
  obtain ⟨order, entered⟩ := check_bind_eq_ok.mp ok
  rw [ensure_eq_ok, isInstructionOrEnd, Bool.or_eq_true, decide_eq_true_eq, contains_iff_mem,
    or_comm] at start finish
  rw [ensure_eq_ok, decide_eq_true_eq] at order
  rw [ensure_eq_ok, contains_iff_mem] at entered
  exact ⟨start, finish, order, entered⟩

section
variable {ops : InstructionSet} {exe : DecodedExecutableRecord} {depth : Nat}

theorem validated_of_ok (ok : exe.validateCachedBytecode ops (depth + 1) = .ok ()) :
    (∃ handlers, Validated ops exe handlers) ∧
      ∃ functions, exe.sharedFunctions.values DecodedFunctionRecord.decode = some functions ∧
        ∀ fn ∈ functions, ∃ nested, fn.decodeExecutable = some nested ∧
          nested.validateCachedBytecode ops depth = .ok () := by
  obtain ⟨handlers, decoded, ok⟩ := bind_eq_ok.mp ok
  obtain ⟨sourceMap, -, ok⟩ := bind_eq_ok.mp ok
  obtain ⟨bytecode, shared⟩ := check_bind_eq_ok.mp ok
  obtain ⟨starts, collected, checks⟩ := bind_eq_ok.mp (map_error_eq_ok.mp bytecode)
  obtain ⟨instructions, checks⟩ := check_bind_eq_ok.mp checks
  obtain ⟨inOrder, -⟩ := check_bind_eq_ok.mp checks
  have starts_eq : instructionStarts ops exe.bytecode.bytes = starts := by
    rw [instructionStarts, collected]
  constructor
  · refine ⟨handlers, present_eq_ok.mp decoded, ?_, ?_, ?_⟩
    · rw [starts_eq]
      exact tight_of_collect_offsets (Nat.zero_le _) (by omega) collected
    · rw [starts_eq]
      intro start mem op found
      have passed := map_error_eq_ok.mp (each_eq_ok.mp instructions start mem)
      exact validate_instruction_ok found passed
    · rw [starts_eq]
      intro handler mem
      exact validate_exception_handler_ok (each_eq_ok.mp inOrder handler mem)
  · obtain ⟨functions, vals, passed⟩ := for_each_from_eq_ok.mp shared
    refine ⟨functions, vals, fun fn mem => ?_⟩
    obtain ⟨nested, found, ok⟩ := bind_eq_ok.mp (passed fn mem)
    exact ⟨nested, present_eq_ok.mp found, ok⟩

theorem depth_pos_of_ok (ok : exe.validateCachedBytecode ops depth = .ok ()) :
    ∃ less, depth = less + 1 := by
  cases depth with
  | zero => cases ok
  | succ less => exact ⟨less, rfl⟩

variable {handlers : List ExceptionHandler}

section
variable (valid : Validated ops exe handlers)

include valid

/-- Execution that never runs past the end stays on instructions: every other way to go on
was checked. -/
theorem reached_mem (inside : StaysInside ops exe) {pos : Nat}
    (reached : Reached ops exe.bytecode.bytes handlers pos) :
    pos ∈ instructionStarts ops exe.bytecode.bytes := by
  induction reached with
  | start => exact valid.tight.first (length_pos_of_ne_nil inside.nonempty)
  | label instruction found held label =>
    exact (valid.fields _ instruction _ found _ held).label _ label
  | handler listed => exact (valid.inOrder _ listed).handler
  | step before step ih =>
    cases step with
    | next found continues sized =>
      rcases valid.tight.next ih sized with mem | ended
      · exact mem
      · exact absurd ended (inside.last handlers valid.decoded _ before _ _ found continues sized)
    | jump found held label => exact (valid.fields _ ih _ found _ held).label _ label
    | throw covered => exact (valid.inOrder _ covered).handler

theorem stays_inside_of_safe (safe : Safe ops exe) : StaysInside ops exe := by
  have within : ∀ pos, Reached ops exe.bytecode.bytes handlers pos →
      pos < exe.bytecode.bytes.length := by
    intro pos reached
    exact valid.tight.inside pos (safe.control handlers valid.decoded pos reached)
  refine ⟨ne_nil_of_length_pos (within 0 .start), ?_⟩
  intro others decoded start reached op size found continues sized ended
  rw [valid.decoded] at decoded
  cases decoded
  have past := within _ (.step reached (.next found continues sized))
  omega

theorem safe_iff : Safe ops exe ↔ IndicesWithin exe ∧ StaysInside ops exe := by
  constructor
  · intro safe
    exact ⟨safe.indices, stays_inside_of_safe valid safe⟩
  · rintro ⟨indices, inside⟩
    refine ⟨valid.fields, indices, ?_, ?_⟩
    · intro others decoded handler mem
      rw [valid.decoded] at decoded
      cases decoded
      exact valid.inOrder handler mem
    · intro others decoded pos reached
      rw [valid.decoded] at decoded
      cases decoded
      exact reached_mem valid inside reached

end
end

/-! ## Every executable of a blob -/

section
variable {ops : InstructionSet} {blob : DecodedCacheBlob} {exe : DecodedExecutableRecord}
  {depth : Nat}

theorem nested_validated (ok : blob.validateCachedBytecode ops depth = .ok ())
    (nested : Nested blob exe) :
    ∃ left, exe.validateCachedBytecode ops left = .ok () := by
  obtain ⟨program, declarations⟩ := check_bind_eq_ok.mp ok
  -- the functions of an executable that passed were checked with one level less
  have shared : ∀ {outer : DecodedExecutableRecord} {left : Nat}
      {functions : List DecodedFunctionRecord} {fn : DecodedFunctionRecord}
      {inner : DecodedExecutableRecord}, outer.validateCachedBytecode ops left = .ok () →
        outer.sharedFunctions.values DecodedFunctionRecord.decode = some functions →
        fn ∈ functions → fn.decodeExecutable = some inner →
          ∃ less, inner.validateCachedBytecode ops less = .ok () := by
    intro outer left functions fn inner passed vals mem decoded
    obtain ⟨less, rfl⟩ := depth_pos_of_ok passed
    obtain ⟨-, others, sameValues, all⟩ := validated_of_ok passed
    rw [vals] at sameValues
    cases sameValues
    obtain ⟨same, sameDecoded, passed⟩ := all fn mem
    rw [decoded] at sameDecoded
    cases sameDecoded
    exact ⟨less, passed⟩
  induction nested with
  | declaration declared decoded =>
    have passed := each_eq_ok.mp declarations _ declared
    obtain ⟨same, found, passed⟩ := bind_eq_ok.mp passed
    rw [present_eq_ok.mp found] at decoded
    cases decoded
    exact ⟨depth, passed⟩
  | program vals mem decoded => exact shared program vals mem decoded
  | shared _ vals mem decoded ih =>
    obtain ⟨left, passed⟩ := ih
    exact shared passed vals mem decoded

theorem holds_validated (ok : blob.validateCachedBytecode ops depth = .ok ())
    (holds : Holds blob exe) :
    ∃ handlers, Validated ops exe handlers := by
  have passed : ∃ left, exe.validateCachedBytecode ops left = .ok () := by
    rcases holds with rfl | nested
    · exact ⟨depth, (check_bind_eq_ok.mp ok).1⟩
    · exact nested_validated ok nested
  obtain ⟨left, passed⟩ := passed
  obtain ⟨less, rfl⟩ := depth_pos_of_ok passed
  exact (validated_of_ok passed).1

theorem element_index_lt {elem : ClassElementRecord} {count : Nat} {index : UInt32}
    (valid : elem.indicesAreValid count = true)
    (found : elem.sharedFunctionDataIndex = some index) : index.toNat < count := by
  simp only [ClassElementRecord.indicesAreValid, found] at valid
  split at valid
  · exact of_decide_eq_true valid
  · split at valid
    · split at valid <;> exact of_decide_eq_true valid
    · cases valid

theorem indices_within_of_ok (ok : exe.indicesAreValid = .ok ()) : IndicesWithin exe := by
  obtain ⟨ident, blueprints⟩ := check_bind_eq_ok.mp ok
  rw [ensure_eq_ok] at ident
  obtain ⟨vals, decoded, valid⟩ := for_each_from_eq_ok.mp blueprints
  have checked : ∀ blueprint ∈ vals,
      blueprint.constructorSfdIndex.toNat < exe.sharedFunctions.count ∧
        ∀ elem ∈ blueprint.elements, elem.indicesAreValid exe.sharedFunctions.count = true := by
    intro blueprint mem
    have passed := ensure_eq_ok.mp (valid blueprint mem)
    rwa [ClassBlueprintRecord.indicesAreValid, Bool.and_eq_true, decide_eq_true_eq,
      all_eq_true] at passed
  refine ⟨?_, ?_, ?_⟩
  · intro index found
    rwa [found, Option.all_some, decide_eq_true_eq] at ident
  · intro others same blueprint mem
    cases decoded.symm.trans same
    exact (checked blueprint mem).1
  · intro others same blueprint mem elem listed index found
    cases decoded.symm.trans same
    exact element_index_lt ((checked blueprint mem).2 elem listed) found

structure Accepted (ops : InstructionSet) (bytes : Bytes) (programType : ProgramType)
    (sourceHash : SourceHash) (sourceLength depth : Nat) (blob : DecodedCacheBlob) : Prop where
  decoded : decodeBlob bytes programType sourceHash = some blob
  ranges : blob.sourceRangesAreValid sourceLength depth = .ok ()
  valid : blob.validateCachedBytecode ops depth = .ok ()

/-- An accepted blob is safe exactly when the indices of its nested executables, which are not
checked, are in their tables, and no executable of it is empty or runs past its end. -/
theorem accepted_blob_safe_iff {bytes : Bytes} {programType : ProgramType}
    {sourceHash : SourceHash} {sourceLength depth : Nat}
    (accepted : Accepted ops bytes programType sourceHash sourceLength depth blob) :
    (∀ executable, Holds blob executable → Safe ops executable) ↔
      (∀ executable, Nested blob executable → IndicesWithin executable) ∧
        ∀ executable, Holds blob executable → StaysInside ops executable := by
  have program : IndicesWithin blob.executable := by
    obtain ⟨-, ranges⟩ := check_bind_eq_ok.mp accepted.ranges
    obtain ⟨-, ranges⟩ := check_bind_eq_ok.mp ranges
    exact indices_within_of_ok (check_bind_eq_ok.mp ranges).2
  constructor
  · intro safe
    refine ⟨fun executable nested => (safe executable (.inr nested)).indices, ?_⟩
    intro executable holds
    obtain ⟨handlers, validated⟩ := holds_validated accepted.valid holds
    exact stays_inside_of_safe validated (safe executable holds)
  · rintro ⟨indices, inside⟩ executable holds
    obtain ⟨handlers, validated⟩ := holds_validated accepted.valid holds
    refine (safe_iff validated).mpr ⟨?_, inside executable holds⟩
    rcases holds with rfl | nested
    · exact program
    · exact indices executable nested

end

/-! ## Accepted blobs -/

/-- The first opcodes of `Bytecode.def`: `Add`, `AddPrivateName`, `ArrayAppend` and `Await`. -/
def firstOps : InstructionSet :=
  [{ size := 16, fields := [(.operand, 4), (.operand, 8), (.operand, 12)], array := none,
     continues := true },
   { size := 8, fields := [(.identifierTableIndex, 4)], array := none, continues := true },
   { size := 16, fields := [(.operand, 4), (.operand, 8), (.unchecked, 12)], array := none,
     continues := true },
   { size := 16, fields := [(.label, 4), (.operand, 8)], array := none, continues := false }]

def awaitForever : Bytes := 3 :: List.replicate 15 0

def addOnly : Bytes := List.replicate 16 0

def blobOf (compiled : CompiledProgram) : Bytes :=
  (serializeCompiledProgram compiled .script zeroHash).getD []

/-- A function whose length identifier is in no table, and one that runs past its end. -/
def corruptScript : CompiledProgram :=
  plainScript (.mk (plainBody awaitForever none)
    [plainFunction [0x66] (.mk (plainBody awaitForever (some 7)) []),
      plainFunction [0x67] (.mk (plainBody addOnly none) [])])

def functionExecutables (executable : DecodedExecutableRecord) : List DecodedExecutableRecord :=
  ((executable.sharedFunctions.values DecodedFunctionRecord.decode).getD []).filterMap
    DecodedFunctionRecord.decodeExecutable

def passes (blob : DecodedCacheBlob) : Bool :=
  (blob.sourceRangesAreValid 0 3).isOk && (blob.validateCachedBytecode firstOps 3).isOk

variable {blob : DecodedCacheBlob}

theorem nested_of_mem {exe : DecodedExecutableRecord}
    (mem : exe ∈ functionExecutables blob.executable) : Nested blob exe := by
  obtain ⟨fn, listed, decoded⟩ := mem_filterMap.mp mem
  cases vals : blob.executable.sharedFunctions.values DecodedFunctionRecord.decode with
  | none =>
    rw [vals] at listed
    exact absurd listed not_mem_nil
  | some =>
    rw [vals] at listed
    exact .program vals listed decoded

theorem eq_ok_of_is_ok {ε : Type} {check : Except ε Unit} (ok : check.isOk = true) :
    check = .ok () := by
  cases check with
  | error => cases ok
  | ok => rfl

theorem accepted_of_passes {bytes : Bytes}
    (decoded : decodeBlob bytes .script zeroHash = some blob) (ok : passes blob = true) :
    Accepted firstOps bytes .script zeroHash 0 3 blob := by
  obtain ⟨ranges, valid⟩ := Bool.and_eq_true_iff.mp ok
  exact ⟨decoded, eq_ok_of_is_ok ranges, eq_ok_of_is_ok valid⟩

theorem corrupt_script_passes :
    (decodeBlob (blobOf corruptScript) .script zeroHash).any (fun blob =>
      passes blob && (functionExecutables blob.executable).any (fun exe =>
        exe.header.lengthIdentifier = some 7 ∧ exe.propertyKeyTable.count = 0) &&
        (functionExecutables blob.executable).any fun exe =>
          exe.bytecode.bytes = addOnly) = true := by
  decide +kernel

/-- An accepted blob with a function whose length identifier is in no table and one whose
execution gets to the end of its buffer. -/
theorem accepted_blob_unsafe :
    ∃ blob, Accepted firstOps (blobOf corruptScript) .script zeroHash 0 3 blob ∧
      (∃ executable, Nested blob executable ∧ executable.header.lengthIdentifier = some 7 ∧
        executable.propertyKeyTable.count = 0) ∧
      (∃ executable, Nested blob executable ∧ executable.bytecode.bytes.length = 16 ∧
        ∀ handlers, Reached firstOps executable.bytecode.bytes handlers 16) ∧
      ¬ ∀ executable, Holds blob executable → Safe firstOps executable := by
  obtain ⟨blob, decoded, facts⟩ := (Option.any_eq_true ..).mp corrupt_script_passes
  obtain ⟨facts, falls⟩ := Bool.and_eq_true_iff.mp facts
  obtain ⟨ok, unlisted⟩ := Bool.and_eq_true_iff.mp facts
  obtain ⟨outside, member, identifier⟩ := any_eq_true.mp unlisted
  obtain ⟨identifier, empty⟩ := of_decide_eq_true identifier
  obtain ⟨falling, listed, bytes⟩ := any_eq_true.mp falls
  have bytes : falling.bytecode.bytes = addOnly := of_decide_eq_true bytes
  refine ⟨blob, accepted_of_passes decoded ok, ⟨outside, nested_of_mem member, identifier, empty⟩,
    ⟨falling, nested_of_mem listed, ?_, ?_⟩, ?_⟩
  · rw [bytes]
    rfl
  · intro handlers
    rw [bytes]
    have next : Step firstOps addOnly handlers 0 (0 + 16) := .next rfl rfl rfl
    exact .step .start next
  · intro safe
    have below := (safe outside (.inr (nested_of_mem member))).indices.lengthIdentifier 7 identifier
    rw [empty] at below
    exact absurd below (Nat.not_lt_zero _)

/-- A script and a function of it that wait for ever. -/
def awaitScript : CompiledProgram :=
  plainScript (.mk (plainBody awaitForever none)
    [plainFunction [0x66] (.mk (plainBody awaitForever none) [])])

theorem await_script_passes :
    (decodeBlob (blobOf awaitScript) .script zeroHash).any passes = true := by
  decide +kernel

theorem accepted_blob_safe_iff_await :
    ∃ blob, Accepted firstOps (blobOf awaitScript) .script zeroHash 0 3 blob ∧
      ((∀ executable, Holds blob executable → Safe firstOps executable) ↔
        (∀ executable, Nested blob executable → IndicesWithin executable) ∧
          ∀ executable, Holds blob executable → StaysInside firstOps executable) := by
  obtain ⟨blob, decoded, ok⟩ := (Option.any_eq_true ..).mp await_script_passes
  have accepted := accepted_of_passes decoded ok
  exact ⟨blob, accepted, accepted_blob_safe_iff accepted⟩

end Ladybone.BytecodeCache
