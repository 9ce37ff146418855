import Ladybone.Assembler.Moves

/-!
# Offsets, text and handler ranges

The predicted sizes are those of the code laid out, so every block starts at its offset. The
ranges of the handlers follow each other without overlap; merging neighbours and sorting keep
what they serve, and the search finds at every offset of a block that block's own handler.
-/

namespace Ladybone.Assembler

open Support.SortedSearch List

variable {Op : Type} (enc : Encoding Op) (blocks : List (Block Op Nat))
  (undefinedOperand : Option Nat)

/-! ## Sizes -/

@[simp]
theorem code_size_nil : codeSize enc [] = 0 := rfl

theorem code_size_cons (insn : Instruction Op Nat) (code : List (Instruction Op Nat)) :
    codeSize enc (insn :: code) = enc.encodedSize insn + codeSize enc code := by
  rw [codeSize, map_cons, sum_cons, codeSize]

theorem code_size_append (code later : List (Instruction Op Nat)) :
    codeSize enc (code ++ later) = codeSize enc code + codeSize enc later := by
  rw [codeSize, map_append, sum_append, codeSize, codeSize]

theorem code_size_encode_inst {idx : Nat} {insn : Instruction Op Nat} :
    codeSize enc (encodeInst enc blocks idx insn) = predictedSize enc blocks idx insn := by
  unfold encodeInst predictedSize
  cases instAction blocks idx insn with
  | emit =>
    rw [code_size_cons, enc.mapLabels]
    rfl
  | skip => rfl
  | jumpToReturn => rfl
  | jumpToEnd => rfl
  | emitJumpTrue cond target =>
    exact enc.mapLabels (blockOffset enc blocks) (.jumpTrue cond target)
  | emitJumpFalse cond target =>
    exact enc.mapLabels (blockOffset enc blocks) (.jumpFalse cond target)

theorem code_size_encode_insts (idx : Nat) (insns : List (Instruction Op Nat)) :
    codeSize enc (insns.flatMap (encodeInst enc blocks idx)) =
      (insns.map (predictedSize enc blocks idx)).sum := by
  induction insns with
  | nil => rfl
  | cons _ _ ih =>
    rw [flatMap_cons, code_size_append, code_size_encode_inst, ih, map_cons, sum_cons]

variable {block : Block Op Nat}

variable {undefinedOperand} in
theorem code_size_encode_block
    (undefinedExists : block.terminated = false → undefinedOperand.isSome = true) {idx : Nat} :
    codeSize enc (encodeBlock enc blocks undefinedOperand idx block) =
      predictedBlockSize enc blocks idx block := by
  rw [encodeBlock, code_size_append, code_size_encode_insts, predictedBlockSize, encodeEnd]
  cases terminated : block.terminated with
  | true => rfl
  | false =>
    obtain ⟨operand, rfl⟩ := Option.isSome_iff_exists.mp (undefinedExists terminated)
    have sameSize := enc.mapOperands (fun _ => operand) (.end 0)
    simp only [Instruction.mapOperands] at sameSize
    simp [code_size_cons, sameSize]

/-! ## Where blocks start -/

/-- This code is what stands in the buffer from this offset on. -/
def TextAt (offset : Nat) (text : List (Instruction Op Nat)) : Prop :=
  ∃ before, (layOut enc blocks undefinedOperand).bytecode = before ++ text ∧
    codeSize enc before = offset

variable {enc blocks undefinedOperand}

variable {off start : Nat} {later : List (Instruction Op Nat)} {handlers : List ExceptionHandler}
  {handler last : ExceptionHandler}

theorem TextAt.append {code : List (Instruction Op Nat)}
    (text : TextAt enc blocks undefinedOperand off (code ++ later)) :
    TextAt enc blocks undefinedOperand (off + codeSize enc code) later := by
  obtain ⟨before, whole, size⟩ := text
  refine ⟨before ++ code, ?_, ?_⟩
  · rw [whole, append_assoc]
  · rw [code_size_append, size]

theorem fetch_append (before : List (Instruction Op Nat)) (text : List (Instruction Op Nat)) :
    fetch enc (before ++ text) (codeSize enc before) = fetch enc text 0 := by
  induction before with
  | nil => rfl
  | cons insn _ ih =>
    have positive := enc.positive insn
    rwa [cons_append, code_size_cons, fetch, if_neg (by omega), if_neg (by omega),
      Nat.add_sub_cancel_left]

section
variable (closed : Closed blocks undefinedOperand)

include closed

theorem code_size_of_mem (mem : block ∈ blocks) (idx : Nat) :
    codeSize enc (encodeBlock enc blocks undefinedOperand idx block) =
      predictedBlockSize enc blocks idx block :=
  code_size_encode_block enc blocks (closed.undefinedExists block mem)

theorem encode_from_split {part : List (Block Op Nat)} (within : ∀ block ∈ part, block ∈ blocks)
    (idx start pos : Nat) (inside : pos < part.length) :
    ∃ before, encodeFrom enc blocks undefinedOperand idx part =
        before ++ encodeFrom enc blocks undefinedOperand (idx + pos) (part.drop pos) ∧
      start + codeSize enc before = (blockOffsetsFrom enc blocks idx start part).getD pos 0 := by
  induction part generalizing idx start pos with
  | nil => exact absurd inside (Nat.not_lt_zero _)
  | cons block _ ih =>
    cases pos with
    | zero => exact ⟨[], rfl, rfl⟩
    | succ pos =>
      obtain ⟨before, code, size⟩ := ih (fun other mem => within other (.tail _ mem))
        (idx + 1) (start + predictedBlockSize enc blocks idx block) pos
        (Nat.lt_of_succ_lt_succ inside)
      refine ⟨encodeBlock enc blocks undefinedOperand idx block ++ before, ?_, ?_⟩
      · rw [encodeFrom, code, append_assoc, drop_succ_cons, Nat.add_assoc, Nat.add_comm 1]
      · rw [code_size_append, code_size_of_mem closed (within block (.head _)),
          blockOffsetsFrom, getD_cons_succ, ← size, Nat.add_assoc]

/-- Behind the instructions already run stands the rest of the block, then the later blocks. -/
theorem text_at_rest {idx : Nat} (here : blocks[idx]? = some block)
    {done rest : List (Instruction Op Nat)} (split : block.instructions = done ++ rest) :
    TextAt enc blocks undefinedOperand
      (blockOffset enc blocks idx + codeSize enc (done.flatMap (encodeInst enc blocks idx)))
      (rest.flatMap (encodeInst enc blocks idx) ++ (encodeEnd undefinedOperand block ++
          encodeFrom enc blocks undefinedOperand (idx + 1) (blocks.drop (idx + 1)))) := by
  obtain ⟨inside, rfl⟩ := List.getElem?_eq_some_iff.mp here
  apply TextAt.append
  obtain ⟨before, code, size⟩ :=
    encode_from_split closed (fun _ mem => mem) 0 0 idx inside
  rw [Nat.zero_add] at code size
  rw [drop_eq_getElem_cons inside, encodeFrom, encodeBlock, split, flatMap_append] at code
  simp only [append_assoc] at code
  exact ⟨before, code, size⟩

omit closed in
theorem block_offsets_from_succ (part : List (Block Op Nat)) (idx start pos : Nat)
    (here : part[pos]? = some block) (inside : pos + 1 < part.length) :
    (blockOffsetsFrom enc blocks idx start part).getD (pos + 1) 0 =
      (blockOffsetsFrom enc blocks idx start part).getD pos 0 +
        predictedBlockSize enc blocks (idx + pos) block := by
  induction part generalizing idx start pos with
  | nil => exact absurd inside (Nat.not_lt_zero _)
  | cons first rest ih =>
    cases pos with
    | zero =>
      cases rest with
      | nil => exact absurd inside (by simp)
      | cons =>
        obtain rfl : first = block := Option.some.inj here
        rfl
    | succ pos =>
      have later := ih (idx + 1) (start + predictedBlockSize enc blocks idx first)
        pos here (Nat.lt_of_succ_lt_succ inside)
      rwa [Nat.add_right_comm idx] at later

end

/-! ## Handler ranges -/

def Chained : Nat → List ExceptionHandler → Prop
  | _, [] => True
  | offset, handler :: rest =>
    offset ≤ handler.startOffset ∧ handler.startOffset ≤ handler.endOffset ∧
      Chained handler.endOffset rest

def ExceptionHandler.Covers (handler : ExceptionHandler) (offset : Nat) : Prop :=
  handler.startOffset ≤ offset ∧ offset < handler.endOffset

def Serves (handlers : List ExceptionHandler) (offset target : Nat) : Prop :=
  ∃ handler ∈ handlers, handler.Covers offset ∧ handler.handlerOffset = target

theorem Chained.mono {earlier : Nat} (chained : Chained off handlers) (lower : earlier ≤ off) :
    Chained earlier handlers := by
  cases handlers with
  | nil => trivial
  | cons => exact ⟨lower.trans chained.1, chained.2⟩

theorem Chained.start_le (chained : Chained off handlers) (mem : handler ∈ handlers) :
    off ≤ handler.startOffset ∧ handler.startOffset ≤ handler.endOffset := by
  induction handlers generalizing off with
  | nil => cases mem
  | cons _ _ ih =>
    obtain ⟨lower, order, later⟩ := chained
    rcases mem_cons.mp mem with rfl | mem
    · exact ⟨lower, order⟩
    · exact ih (later.mono (lower.trans order)) mem

theorem Chained.pairwise (chained : Chained off handlers) : handlers.Pairwise fun left right =>
      left.startOffset ≤ left.endOffset ∧ left.endOffset ≤ right.startOffset ∧
        right.startOffset ≤ right.endOffset := by
  induction handlers generalizing off with
  | nil => exact .nil
  | cons _ _ ih =>
    obtain ⟨-, order, later⟩ := chained
    exact .cons (fun other mem => ⟨order, later.start_le mem⟩) (ih later)

theorem serves_cons {target : Nat} :
    Serves (handler :: handlers) off target ↔
      handler.Covers off ∧ handler.handlerOffset = target ∨ Serves handlers off target := by
  simp [Serves]

theorem merge_into_chained (chained : Chained off (last :: handlers)) :
    Chained off (mergeInto last handlers) := by
  induction handlers generalizing last off with
  | nil => exact chained
  | cons _ _ ih =>
    obtain ⟨lower, order, follows, orderedNext, later⟩ := chained
    rw [mergeInto]
    split
    · exact ih ⟨lower, by dsimp only; omega, later⟩
    · exact ⟨lower, order, ih ⟨follows, orderedNext, later⟩⟩

theorem merge_into_serves (chained : Chained start (last :: handlers)) {off target : Nat} :
    Serves (mergeInto last handlers) off target ↔ Serves (last :: handlers) off target := by
  induction handlers generalizing last start with
  | nil => rfl
  | cons handler rest ih =>
    obtain ⟨lower, order, follows, orderedNext, later⟩ := chained
    rw [mergeInto]
    split
    next adjacent =>
      have widened : Chained start ({ last with endOffset := handler.endOffset } :: rest) :=
        ⟨lower, by dsimp only; omega, later⟩
      rw [ih widened]
      simp only [serves_cons, ExceptionHandler.Covers, ← or_assoc]
      apply or_congr_left
      omega
    next =>
      rw [serves_cons, ih ⟨follows, orderedNext, later⟩]
      exact serves_cons.symm

variable (enc blocks undefinedOperand) in
theorem handlers_from_chained (part : List (Block Op Nat)) (idx start : Nat) :
    Chained start (handlersFrom enc blocks undefinedOperand idx start part) := by
  induction part generalizing idx start with
  | nil => trivial
  | cons block _ ih =>
    have later := ih (idx + 1)
      (start + codeSize enc (encodeBlock enc blocks undefinedOperand idx block))
    rw [handlersFrom]
    cases block.handler with
    | none => exact later.mono (Nat.le_add_right _ _)
    | some => exact ⟨Nat.le_refl _, Nat.le_add_right _ _, later⟩

theorem probe_eq_zero_iff {entry : ExceptionHandler} : probe off entry = 0 ↔ entry.Covers off := by
  unfold probe ExceptionHandler.Covers
  constructor
  · intro accepted
    split_ifs at accepted <;> omega
  · rintro ⟨lower, upper⟩
    rw [if_neg (by omega), if_neg (by omega)]

theorem Chained.probe_falls (chained : Chained start handlers) (off : Nat) :
    ProbeFalls (probe off) handlers := by
  refine chained.pairwise.imp ?_
  rintro left right ⟨order, follows, orderedNext⟩
  unfold probe
  constructor
  all_goals split_ifs <;> omega

theorem handler_for_offset_eq (chained : Chained start handlers) {target : Option Nat}
    (serves : ∀ other, Serves handlers off other ↔ target = some other) :
    (handlerForOffset handlers off).map ExceptionHandler.handlerOffset = target := by
  have finds := binary_search_is_some_iff _ handlers (chained.probe_falls off)
  unfold handlerForOffset
  cases found : binarySearch (probe off) handlers with
  | none =>
    cases target with
    | none => rfl
    | some other =>
      obtain ⟨handler, mem, covers, -⟩ := (serves other).mpr rfl
      rw [found] at finds
      cases (finds.mpr ⟨handler, mem, probe_eq_zero_iff.mpr covers⟩)
  | some pos =>
    obtain ⟨handler, read, accepted⟩ := binary_search_sound _ handlers found
    rw [Option.bind_some, read]
    exact ((serves _).mp ⟨handler, mem_of_getElem? read, probe_eq_zero_iff.mp accepted, rfl⟩).symm

variable (enc blocks) in
theorem block_offsets_from_le {part : List (Block Op Nat)} (idx start pos : Nat)
    (inside : pos < part.length) :
    start ≤ (blockOffsetsFrom enc blocks idx start part).getD pos 0 := by
  induction part generalizing idx start pos with
  | nil => exact absurd inside (Nat.not_lt_zero _)
  | cons _ _ ih =>
    cases pos with
    | zero => exact Nat.le_refl _
    | succ pos =>
      exact (Nat.le_add_right _ _).trans (ih (idx + 1) _ pos (Nat.lt_of_succ_lt_succ inside))

theorem not_serves_of_lt (chained : Chained start handlers) (before : off < start) (target : Nat)
    : ¬ Serves handlers off target := by
  rintro ⟨handler, mem, covers, -⟩
  have lower := (chained.start_le mem).1
  have upper := covers.1
  omega

theorem handlers_from_serves (closed : Closed blocks undefinedOperand) (part : List (Block Op Nat))
    (within : ∀ block ∈ part, block ∈ blocks) (idx start pos : Nat) (here : part[pos]? = some block)
    (lower : (blockOffsetsFrom enc blocks idx start part).getD pos 0 ≤ off)
    (upper : off < (blockOffsetsFrom enc blocks idx start part).getD pos 0 +
      predictedBlockSize enc blocks (idx + pos) block) (target : Nat) :
    Serves (handlersFrom enc blocks undefinedOperand idx start part) off target ↔
      block.handler.map (blockOffset enc blocks) = some target := by
  induction part generalizing idx start pos with
  | nil => cases here
  | cons first rest ih =>
    have size : codeSize enc _ = _ :=
      code_size_of_mem closed (within first (.head _)) idx
    have later := handlers_from_chained enc blocks undefinedOperand rest (idx + 1)
      (start + predictedBlockSize enc blocks idx first)
    rw [handlersFrom, size]
    cases pos with
    | zero =>
      obtain rfl : first = block := Option.some.inj here
      have notLater := not_serves_of_lt later upper target
      cases first.handler with
      | none => simpa using notLater
      | some =>
        rw [Option.map_some, Option.map_some, Option.some.injEq]
        exact serves_cons.trans ((or_iff_left notLater).trans
          (and_iff_right (And.intro lower upper)))
    | succ pos =>
      have inside : pos < rest.length :=
        Nat.lt_of_succ_lt_succ (List.getElem?_eq_some_iff.mp here).1
      have behind := block_offsets_from_le enc blocks (idx + 1)
        (start + predictedBlockSize enc blocks idx first) pos inside
      have found := ih (fun other mem => within other (.tail _ mem)) (idx + 1)
        (start + predictedBlockSize enc blocks idx first) pos here lower
        (by rw [Nat.add_right_comm idx]; exact upper)
      rw [← found]
      cases first.handler with
      | none => rfl
      | some =>
        refine serves_cons.trans (or_iff_right ?_)
        rintro ⟨covers, -⟩
        exact absurd (covers.2.trans_le (behind.trans lower)) (Nat.lt_irrefl _)

theorem handler_for_block (closed : Closed blocks undefinedOperand) {idx : Nat}
    (here : blocks[idx]? = some block) (lower : blockOffset enc blocks idx ≤ off)
    (upper : off < blockOffset enc blocks idx + predictedBlockSize enc blocks idx block) :
    (handlerForOffset (layOut enc blocks undefinedOperand).exceptionHandlers off).map
        ExceptionHandler.handlerOffset = block.handler.map (blockOffset enc blocks) := by
  have chained := handlers_from_chained enc blocks undefinedOperand blocks 0 0
  have serves := handlers_from_serves closed blocks (fun _ mem => mem) 0 0 idx here lower
    (by rwa [Nat.zero_add])
  have mergedChained : Chained 0
      (mergeHandlers (handlersFrom enc blocks undefinedOperand 0 0 blocks)) := by
    cases ranges : handlersFrom enc blocks undefinedOperand 0 0 blocks with
    | nil => trivial
    | cons =>
      rw [ranges] at chained
      exact merge_into_chained chained
  have sorted : (layOut enc blocks undefinedOperand).exceptionHandlers =
      mergeHandlers (handlersFrom enc blocks undefinedOperand 0 0 blocks) :=
    List.Pairwise.insertionSort_eq
      (mergedChained.pairwise.imp fun ⟨order, follows, _⟩ => order.trans follows)
  rw [sorted]
  refine handler_for_offset_eq mergedChained fun other => ?_
  rw [← serves other]
  cases ranges : handlersFrom enc blocks undefinedOperand 0 0 blocks with
  | nil => rfl
  | cons =>
    rw [ranges] at chained
    exact merge_into_serves chained

end Ladybone.Assembler
