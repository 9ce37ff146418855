import Ladybone.Assembler.Layout

/-!
# Running the buffer

Blocks run one instruction at a time and the buffer laid out from them simulate each other: the
program counter is the offset of the block and the size of the code of the instructions already
run. A dropped jump and the step into the next block are silent.
-/

namespace Ladybone.Assembler

open Support.Simulation List Option Instruction

variable {Op Value World Effect : Type} {encoding : Encoding Op} {blocks : List (Block Op Nat)}

/-! ## Patched labels -/

def Control.mapLabel (patch : Nat → Nat) : Control Value → Control Value
  | .goto label => .goto (patch label)
  | .exit reason => .exit (reason.mapLabel patch)
  | control => control

theorem resolve_map_labels {patch : Nat → Nat} {labels : List Nat} {outcome : Outcome Value} :
    resolve (labels.map patch) outcome = (resolve labels outcome).mapLabel patch := by
  cases outcome with
  | next => rfl
  | take label =>
    simp only [resolve, getElem?_map]
    cases labels[label]? <;> rfl
  | throw => rfl
  | yield _ continuation =>
    cases continuation with
    | none => rfl
    | some label =>
      simp only [resolve, getElem?_map]
      cases labels[label]? <;> rfl

theorem execute_map_labels {sem : Semantics Op Value World Effect} {place : ReservedRegister → Nat}
    {patch : Nat → Nat} {insn : Instruction Op Nat} {vals : Nat → Value} {world : World} :
    execute sem place (insn.mapLabels patch) vals world =
      { execute sem place insn vals world with
        control := (execute sem place insn vals world).control.mapLabel patch } := by
  cases insn with
  | jumpIf =>
    simp only [mapLabels, execute]
    split <;> rfl
  | jumpTrue | jumpFalse =>
    simp only [mapLabels, execute]
    split <;> rfl
  | other =>
    simp [mapLabels, execute, resolve_map_labels]
  | _ => rfl

theorem label_of_goto (sem : Semantics Op Value World Effect)
    (place : ReservedRegister → Nat) {insn : Instruction Op Nat} {vals : Nat → Value}
    {world : World} {label : Nat}
    (goes : (execute sem place insn vals world).control = .goto label) :
    label ∈ insn.labels := by
  cases insn with
  | jump =>
    cases goes
    exact .head _
  | jumpIf =>
    simp only [execute, Control.goto.injEq] at goes
    simp only [labels, mem_cons, not_mem_nil, or_false]
    split at goes
    · exact .inl goes.symm
    · exact .inr goes.symm
  | jumpTrue | jumpFalse =>
    simp only [execute] at goes
    split at goes <;> cases goes
    exact .head _
  | other =>
    simp only [execute] at goes
    unfold resolve at goes
    split at goes <;> try cases goes
    · split at goes <;> cases goes
      next read => exact mem_of_getElem? read
    · split at goes <;> cases goes
  | _ => cases goes

/-! ## Matching positions -/

variable (encoding blocks)

structure Placed (config : Config Op Nat Value World) (flat : FlatConfig Value World) : Prop where
  here : ∃ block done, blocks[config.block]? = some block ∧
    block.instructions = done ++ config.rest ∧
    flat.programCounter = blockOffset encoding blocks config.block +
      codeSize encoding (done.flatMap (encodeInst encoding blocks config.block))
  values : flat.values = config.values
  world : flat.world = config.world

structure Result.Patched (result other : Result Nat Value World) : Prop where
  exit : other.exit = result.exit.mapLabel (blockOffset encoding blocks)
  values : other.values = result.values
  world : other.world = result.world

/-- Steps inside a block shorten what is left of it, and the next block counts one more than
its instructions. -/
def distance (config : Config Op Nat Value World) : Nat :=
  config.rest.length +
    ((blocks.drop (config.block + 1)).map fun block => block.instructions.length + 1).sum

variable {enc : Encoding Op} {blocks} {block : Block Op Nat} {pc idx label : Nat}
  {insn : Instruction Op Nat} {done rest : List (Instruction Op Nat)} {vals : Nat → Value}
  {world : World} {effects : List Effect}

theorem placed_at_start (here : blocks[label]? = some block) :
    Placed enc blocks ⟨label, block.instructions, vals, world⟩
      ⟨blockOffset enc blocks label, vals, world⟩ :=
  ⟨⟨block, [], here, rfl, rfl⟩, rfl, rfl⟩

theorem JumpsLast.of_append {ι : Type} {terminated : Bool} {done rest : List (Instruction Op ι)}
    (jumpsLast : JumpsLast terminated (done ++ rest)) : JumpsLast terminated rest := by
  induction done with
  | nil => exact jumpsLast
  | cons _ _ ih => exact ih jumpsLast.2

theorem only_exit_cases {action : InstAction} (only : onlyExit block = some action) :
    (∃ val, block.instructions = [.return val] ∧ action = .jumpToReturn val) ∨
      ∃ val, block.instructions = [.end val] ∧ action = .jumpToEnd val := by
  unfold onlyExit at only
  split_ifs at only
  split at only <;> cases only
  next val single => exact .inl ⟨val, single, rfl⟩
  next val single => exact .inr ⟨val, single, rfl⟩

section
variable (sem : Semantics Op Value World Effect) {frame : Frame Nat}
  (closed : Closed blocks frame.undefined)

theorem flat_step_eq {later : List (Instruction Op Nat)}
    (text : TextAt enc blocks frame.undefined pc (insn :: later)) :
    flatStep sem enc frame.place (layOut enc blocks frame.undefined) ⟨pc, vals, world⟩ =
      flatProceed enc frame.place (layOut enc blocks frame.undefined).exceptionHandlers pc insn
        (execute sem frame.place insn vals world) := by
  obtain ⟨before, whole, rfl⟩ := text
  rw [flatStep, whole, fetch_append, fetch, if_pos rfl]

include closed

section
variable (here : blocks[idx]? = some block) (pos : pc = blockOffset enc blocks idx +
  codeSize enc (done.flatMap (encodeInst enc blocks idx)))
  (split : block.instructions = done ++ insn :: rest)

include here

include split in
theorem nothing_behind_jump (isJump : insn.isJump = true) :
    rest = [] ∧ block.terminated = true := by
  have jumpsLast := closed.jumpsLast block (mem_of_getElem? here)
  rw [split] at jumpsLast
  exact jumpsLast.of_append.1 isJump

omit closed in
theorem next_block_offset (terminated : block.terminated = true)
    (inside : idx + 1 < blocks.length) :
    blockOffset enc blocks idx +
        codeSize enc (block.instructions.flatMap (encodeInst enc blocks idx)) =
      blockOffset enc blocks (idx + 1) := by
  have next := @block_offsets_from_succ Op enc blocks block blocks 0 0 idx here inside
  rw [Nat.zero_add, predictedBlockSize, if_pos terminated] at next
  rw [code_size_encode_insts]
  exact next.symm

include split in
theorem label_inside (mem : label ∈ insn.labels) : label < blocks.length := by
  refine closed.labelled block (mem_of_getElem? here) label ?_
  rw [Block.labels, split]
  simp [mem]

theorem handler_inside (handled : block.handler = some label) : label < blocks.length := by
  refine closed.labelled block (mem_of_getElem? here) label ?_
  rw [Block.labels, handled]
  simp

omit here closed in
theorem enter_placed (inside : label < blocks.length) :
    Alike (Placed enc blocks) (Result.Patched enc blocks)
      (enter blocks effects label vals world)
      (.step effects ⟨blockOffset enc blocks label, vals, world⟩) := by
  have here := getElem?_eq_getElem inside
  rw [enter, here]
  exact .step (placed_at_start here)

include pos split in
theorem emitted_alike (emitted : instAction blocks idx insn = .emit) :
    Alike (Placed enc blocks) (Result.Patched enc blocks)
      (blockStep sem frame blocks ⟨idx, insn :: rest, vals, world⟩)
      (flatStep sem enc frame.place (layOut enc blocks frame.undefined) ⟨pc, vals, world⟩) := by
  have encoded : encodeInst enc blocks idx insn = [insn.mapLabels (blockOffset enc blocks)] := by
    rw [encodeInst, emitted]
  have text : TextAt enc blocks frame.undefined _ _ := text_at_rest closed here split
  rw [← pos, flatMap_cons, encoded] at text
  have goes : ∀ label, _ → _ := fun label =>
    @label_of_goto Op Value World Effect sem frame.place insn vals world label
  rw [flat_step_eq sem text, execute_map_labels, block_step_cons]
  generalize execute sem frame.place insn vals world = executed at goes ⊢
  obtain ⟨effects, updated, changed, control⟩ := executed
  cases control with
  | next =>
    refine .step ⟨⟨block, done ++ [insn], here, ?_, ?_⟩, rfl, rfl⟩
    · rwa [append_assoc]
    · rw [flatMap_append, code_size_append, flatMap_singleton, encoded,
        code_size_cons, code_size_nil, Nat.add_zero, ← Nat.add_assoc, ← pos]
  | goto label =>
    exact enter_placed (label_inside closed here split (goes label rfl))
  | throw =>
    have inRange : pc < blockOffset enc blocks idx + predictedBlockSize enc blocks idx block := by
      have size := enc.positive (insn.mapLabels (blockOffset enc blocks))
      have whole := code_size_encode_insts enc blocks idx block.instructions
      rw [split, flatMap_append, code_size_append, flatMap_cons, encoded,
        singleton_append, code_size_cons, ← split] at whole
      rw [predictedBlockSize]
      omega
    have found : Option.map _ (handlerForOffset (layOut enc blocks
        frame.undefined).exceptionHandlers pc) = _ :=
      handler_for_block closed here (pos ▸ Nat.le_add_right _ _) inRange
    simp only [proceed, throwFrom, flatProceed, here, bind_some]
    cases handled : block.handler with
    | none =>
      rw [handled, map_none, map_eq_none_iff] at found
      rw [found]
      exact .halt ⟨rfl, rfl, rfl⟩
    | some =>
      rw [handled, map_some, map_eq_some_iff] at found
      obtain ⟨handler, served, offset⟩ := found
      rw [served]
      dsimp only
      rw [offset]
      exact enter_placed (handler_inside closed here handled)
  | exit => exact .halt ⟨rfl, rfl, rfl⟩
  | stuck => exact .stuck

omit here closed in
theorem enter_next_silent (inside : idx + 1 < blocks.length)
    (entered : blockStep sem frame blocks ⟨idx, rest, vals, world⟩ =
      enter blocks [] (idx + 1) vals world) (pos : pc = blockOffset enc blocks (idx + 1)) :
    Progress (blockStep sem frame blocks)
      (flatStep sem enc frame.place (layOut enc blocks frame.undefined))
      (Placed enc blocks) (Result.Patched enc blocks) (distance blocks)
      ⟨idx, rest, vals, world⟩ ⟨pc, vals, world⟩ := by
  have next := getElem?_eq_getElem inside
  subst pos
  rw [enter, next] at entered
  refine .silent (run_one entered) (placed_at_start next) ?_
  simp only [distance]
  rw [drop_eq_getElem_cons inside, map_cons, sum_cons]
  omega

theorem leave_progress (pos : pc = blockOffset enc blocks idx +
      codeSize enc (block.instructions.flatMap (encodeInst enc blocks idx))) :
    Progress (blockStep sem frame blocks)
      (flatStep sem enc frame.place (layOut enc blocks frame.undefined))
      (Placed enc blocks) (Result.Patched enc blocks) (distance blocks)
      ⟨idx, [], vals, world⟩ ⟨pc, vals, world⟩ := by
  have text : TextAt enc blocks frame.undefined _ _ :=
    text_at_rest closed here (append_nil _).symm
  rw [← pos, flatMap_nil, nil_append, encodeEnd] at text
  have left : blockStep sem frame blocks ⟨idx, [], vals, world⟩ =
      leave frame blocks idx vals world := rfl
  rw [leave, here] at left
  dsimp only at left
  cases terminated : block.terminated with
  | true =>
    rw [terminated, if_pos rfl] at left text
    by_cases inside : idx + 1 < blocks.length
    · exact enter_next_silent sem inside left (pos.trans (next_block_offset here terminated inside))
    · apply Alike.progress
      rw [drop_eq_nil_of_le (by omega), encodeFrom, append_nil] at text
      obtain ⟨before, whole, rfl⟩ := text
      rw [left, enter, getElem?_eq_none (by omega), flatStep, whole, fetch_append]
      exact .stuck
  | false =>
    obtain ⟨constant, found⟩ := isSome_iff_exists.mp
      (closed.undefinedExists block (mem_of_getElem? here) terminated)
    apply Alike.progress
    have code : frame.undefined.toList.map Instruction.end =
        [(.end constant : Instruction Op Nat)] := by
      rw [found]
      rfl
    rw [terminated, found] at left
    rw [terminated, code] at text
    rw [left, flat_step_eq sem text]
    exact .halt ⟨rfl, rfl, rfl⟩

include pos in
theorem inlined_progress {target : Nat} {only : Block Op Nat} (there : blocks[target]? = some only)
    {exit : Instruction Op Nat} {reason : Exit Value}
    (split : block.instructions = done ++ .jump target :: rest)
    (single : only.instructions = [exit])
    (encoded : encodeInst enc blocks idx (.jump target) = [exit])
    (exits : execute sem frame.place exit vals world = ⟨[], vals, world, .exit reason⟩)
    (unpatched : reason.mapLabel (blockOffset enc blocks) = reason) :
    Progress (blockStep sem frame blocks)
      (flatStep sem enc frame.place (layOut enc blocks frame.undefined))
      (Placed enc blocks) (Result.Patched enc blocks) (distance blocks)
      ⟨idx, .jump target :: rest, vals, world⟩ ⟨pc, vals, world⟩ := by
  have text : TextAt enc blocks frame.undefined _ _ := text_at_rest closed here split
  rw [← pos, flatMap_cons, encoded] at text
  have jumped : blockStep sem frame blocks ⟨idx, .jump target :: rest, vals, world⟩ =
      .step [] ⟨target, [exit], vals, world⟩ := by
    change enter blocks [] target vals world = _
    rw [← single, enter, there]
  have left : blockStep sem frame blocks ⟨target, [exit], vals, world⟩ =
      .halt [] ⟨reason, vals, world⟩ := by
    rw [block_step_cons, exits]
    rfl
  have right : flatStep sem enc frame.place (layOut enc blocks frame.undefined)
      ⟨pc, vals, world⟩ = .halt [] ⟨reason, vals, world⟩ := by
    rw [flat_step_eq sem text, exits]
    rfl
  have first : run _ 2 _ = _ := run_succ_step jumped
  rw [run_halt left] at first
  have second : run _ 1 _ = _ := run_halt right
  exact .halted first second ⟨unpatched.symm, rfl, rfl⟩

include pos in
theorem narrowed_alike {jump narrow : Instruction Op Nat}
    (split : block.instructions = done ++ jump :: rest) (isJump : jump.isJump = true)
    (nextLabel : idx + 1 ∈ jump.labels) {other : Nat} (otherLabel : other ∈ jump.labels)
    (encoded : encodeInst enc blocks idx jump = [narrow]) (stays : Bool)
    (jumps : execute sem frame.place jump vals world =
      ⟨[], vals, world, .goto (if stays then idx + 1 else other)⟩)
    (narrows : execute sem frame.place narrow vals world = ⟨[], vals, world,
        if stays then .next else .goto (blockOffset enc blocks other)⟩) :
    Alike (Placed enc blocks) (Result.Patched enc blocks)
      (blockStep sem frame blocks ⟨idx, jump :: rest, vals, world⟩)
      (flatStep sem enc frame.place (layOut enc blocks frame.undefined) ⟨pc, vals, world⟩) := by
  obtain ⟨rfl, terminated⟩ := nothing_behind_jump closed here split isJump
  have inside := label_inside closed here split nextLabel
  have text : TextAt enc blocks frame.undefined _ _ := text_at_rest closed here split
  rw [← pos, flatMap_cons, encoded] at text
  have nextOffset : pc + enc.encodedSize narrow = blockOffset enc blocks (idx + 1) := by
    rw [← next_block_offset here terminated inside, pos, split, flatMap_append,
      code_size_append, flatMap_singleton, encoded, code_size_cons, code_size_nil,
      Nat.add_zero, Nat.add_assoc]
  rw [flat_step_eq sem text, narrows, block_step_cons, jumps]
  cases stays with
  | true =>
    change Alike _ _ (enter blocks [] (idx + 1) vals world)
      (.step [] (⟨pc + enc.encodedSize narrow, vals, world⟩ : FlatConfig Value World))
    rw [nextOffset]
    exact enter_placed inside
  | false => exact enter_placed (label_inside closed here split otherLabel)

end

/-- The buffer laid out from closed blocks runs as the blocks do. -/
theorem lay_out_simulates : Simulates (blockStep sem frame blocks)
      (flatStep sem enc frame.place (layOut enc blocks frame.undefined))
      (Placed enc blocks) (Result.Patched enc blocks) (distance blocks) := by
  rintro ⟨idx, rest, _, _⟩ ⟨pc, vals, world⟩ ⟨⟨block, done, here, split, pos⟩, rfl, rfl⟩
  dsimp only at here split pos
  cases rest with
  | nil =>
    rw [append_nil] at split
    rw [← split] at pos
    exact leave_progress sem closed here pos
  | cons insn =>
    cases insn with
    | jump target =>
      by_cases isNext : target = idx + 1
      · subst isNext
        obtain ⟨rfl, terminated⟩ := nothing_behind_jump closed here split rfl
        have inside := label_inside closed here split (.head _)
        have skipped : encodeInst enc blocks idx (.jump (idx + 1)) = [] := by
          rw [encodeInst, instAction, if_pos rfl]
        refine enter_next_silent sem inside rfl ?_
        rw [← next_block_offset here terminated inside, pos, split, flatMap_append,
          flatMap_singleton, skipped, append_nil]
      · have inside : target < blocks.length := label_inside closed here split (.head _)
        have there := getElem?_eq_getElem inside
        have action : instAction blocks idx (.jump target) =
            (onlyExit blocks[target]).getD .emit := by
          rw [instAction, if_neg isNext, there, bind_some]
        cases only : onlyExit blocks[target] with
        | none =>
          rw [only] at action
          exact (emitted_alike sem closed here pos split action).progress
        | some =>
          rw [only, getD_some] at action
          rcases only_exit_cases only with ⟨val, single, rfl⟩ | ⟨val, single, rfl⟩
          all_goals
            exact inlined_progress sem closed here pos there split single
              (by rw [encodeInst, action]) rfl rfl
    | jumpIf cond trueTarget falseTarget =>
      apply Alike.progress
      by_cases trueNext : trueTarget = idx + 1
      · subst trueNext
        have action : instAction blocks idx (.jumpIf cond (idx + 1) falseTarget) =
            .emitJumpFalse cond falseTarget := by
          rw [instAction, if_pos rfl]
        exact narrowed_alike sem closed here pos split rfl (.head _) (.tail _ (.head _))
          (by rw [encodeInst, action]) (sem.truthy (vals cond)) rfl rfl
      · by_cases falseNext : falseTarget = idx + 1
        · subst falseNext
          have action : instAction blocks idx (.jumpIf cond trueTarget (idx + 1)) =
              .emitJumpTrue cond trueTarget := by
            rw [instAction, if_neg trueNext, if_pos rfl]
          refine narrowed_alike sem closed here pos split rfl (.tail _ (.head _)) (.head _)
            (by rw [encodeInst, action]) (!sem.truthy (vals cond)) ?_ ?_
          all_goals
            simp only [execute]
            cases sem.truthy (vals cond) <;> rfl
        · have action : instAction blocks idx (.jumpIf cond trueTarget falseTarget) = .emit := by
            rw [instAction, if_neg trueNext, if_neg falseNext]
          exact emitted_alike sem closed here pos split action
    | _ =>
      exact (emitted_alike sem closed here pos split rfl).progress

end
end Ladybone.Assembler
