import Ladybone.Assembler.Simulation

/-!
# Assembly preserves meaning

The passes over blocks and the layout, one behind the other: where no move is dropped that is
needed again, the assembled buffer and the blocks have the same effects, exits and operand
values, except for the register of a load that was removed.
-/

namespace Ladybone.Assembler

open Support.Simulation List Operand

/-! ## Operand indices -/

section
variable {counts : Counts}

theorem offset_index_injective : Function.Injective (@Operand.offsetIndex counts) := by
  intro left right same
  cases left <;> cases right <;> simp only [offsetIndex] at same
  case register.register i j => rw [Fin.ext same]
  case localVariable.localVariable i j => rw [Fin.ext (Nat.add_right_cancel same)]
  case constant.constant i j => rw [Fin.ext (Nat.add_right_cancel same)]
  case argument.argument i j => rw [Nat.add_right_cancel same]
  all_goals omega

end

/-! ## The blocks after each pass -/

section
variable {Op ι κ : Type} [DecidableEq ι] {saved : ι} {blocks : List (Block Op ι)}
  {block : Block Op ι} {terminated : Bool} {insns : List (Instruction Op ι)}
  {visible : ι → Prop} {rename : ι → κ}
  {rests : List (Instruction Op ι) → List (Instruction Op κ) → Prop} {others : List (Block Op κ)}

theorem starts_with_load (starts : startsWithLoad saved block = true) :
    ∃ rest, block.instructions = .getLexicalEnvironment saved :: rest := by
  unfold startsWithLoad at starts
  split at starts
  next rest load =>
    rw [beq_iff_eq] at starts
    exact ⟨rest, starts ▸ load⟩
  next => cases starts

theorem unused_load_some {idx : Nat} (unused : unusedLoad saved blocks = some idx) :
    (∃ block rest, blocks[idx]? = some block ∧
        block.instructions = .getLexicalEnvironment saved :: rest) ∧
      ∀ block ∈ blocks.modify idx Block.dropFirst,
        ∀ insn ∈ block.instructions, saved ∉ insn.operands := by
  unfold unusedLoad at unused
  split at unused
  next found =>
    split_ifs at unused with mentioned
    cases unused
    obtain ⟨inside, starts, -⟩ := findIdx?_eq_some_iff_getElem.mp found
    constructor
    · exact ⟨blocks[idx], starts_with_load starts |>.imp fun rest load =>
        ⟨getElem?_eq_getElem inside, load⟩⟩
    · intro block mem insn inBlock used
      refine mentioned (any_eq_true.mpr ⟨block, mem, ?_⟩)
      exact any_eq_true.mpr ⟨insn, inBlock, by simpa using used⟩
  next => cases unused

def Visible (saved : ι) (blocks : List (Block Op ι)) (operand : ι) : Prop :=
  (unusedLoad saved blocks).isSome = true → operand ≠ saved

theorem renamed_blocks_match :
    BlocksMatch (Follows (Visible saved blocks) rename) blocks
      ((dropUnusedLoad saved blocks).map (Block.mapOperands rename)) := by
  intro label
  rw [getElem?_map, dropUnusedLoad]
  cases unused : unusedLoad saved blocks with
  | none =>
    cases blocks[label]? with
    | none => exact .none
    | some =>
      have allVisible : ∀ operand, Visible saved blocks operand := by
        intro operand dropped
        rw [unused] at dropped
        cases dropped
      exact .some ⟨.same fun _ _ operand _ => allVisible operand, rfl, rfl⟩
  | some idx =>
    obtain ⟨⟨loaded, rest, there, load⟩, unmentioned⟩ := unused_load_some unused
    have visible : ∀ block ∈ blocks.modify idx Block.dropFirst,
        ∀ insn ∈ block.instructions, ∀ operand ∈ insn.operands,
        Visible saved blocks operand := by
      intro block mem insn inBlock operand used _ same
      exact unmentioned block mem insn inBlock (same ▸ used)
    have modified := getElem?_modify Block.dropFirst idx blocks label
    cases here : blocks[label]? with
    | none =>
      rw [here] at modified
      simp only [modified, Option.map_eq_map]
      exact .none
    | some block =>
      rw [here, Option.map_eq_map, Option.map_some] at modified
      have seen := visible _ (mem_of_getElem? modified)
      simp only [modified]
      by_cases same : idx = label
      · obtain rfl : loaded = block := by
          rw [same, here] at there
          exact (Option.some.inj there).symm
        rw [if_pos same] at seen ⊢
        have hidden : ¬ Visible saved blocks saved := fun seen =>
          seen (by rw [unused]; rfl) rfl
        refine .some ⟨?_, rfl, rfl⟩
        simp only [Block.mapOperands, Block.dropFirst, load] at seen ⊢
        exact .load hidden seen
      · rw [if_neg same] at seen ⊢
        exact .some ⟨.same seen, rfl, rfl⟩

theorem merged_blocks_match
    (harmless : ∀ block ∈ blocks, dropsClobbered none block.instructions = false) :
    BlocksMatch Merged blocks (blocks.map Block.mergeMovs) := by
  intro label
  rw [getElem?_map]
  cases here : blocks[label]? with
  | none => exact .none
  | some block =>
    have merged := merge_movs_merged (harmless block (mem_of_getElem? here))
    exact .some ⟨merged, rfl, rfl⟩

/-! ## Closed blocks stay closed -/

omit [DecidableEq ι] in
theorem JumpsLast.map_operands (jumpsLast : JumpsLast terminated insns) :
    JumpsLast terminated (insns.map (Instruction.mapOperands rename)) := by
  induction insns with
  | nil => trivial
  | cons insn _ ih =>
    refine ⟨fun isJump => ?_, ih jumpsLast.2⟩
    have still : insn.isJump = true := by
      cases insn <;> exact isJump
    exact (jumpsLast.1 still).imp_left fun nothing => by rw [nothing, map_nil]

omit [DecidableEq ι] in
theorem Instruction.labels_map_operands {insn : Instruction Op ι} :
    (insn.mapOperands rename).labels = insn.labels := by
  cases insn <;> rfl

open Instruction

omit [DecidableEq ι] in
theorem Follows.jumps_last {others : List (Instruction Op κ)}
    (follows : Follows visible rename insns others)
    (jumpsLast : JumpsLast terminated insns) : JumpsLast terminated others := by
  cases follows with
  | same => exact jumpsLast.map_operands
  | load => exact jumpsLast.2.map_operands

omit [DecidableEq ι] in
theorem Follows.labels_eq {others : List (Instruction Op κ)}
    (follows : Follows visible rename insns others) :
    others.flatMap Instruction.labels = insns.flatMap Instruction.labels := by
  cases follows with
  | same => simp [flatMap_map, labels_map_operands]
  | load =>
    simp only [flatMap_map, labels_map_operands]
    rfl

omit [DecidableEq ι] in
theorem is_jump_of_moves {insn : Instruction Op ι} {moves : List (ι × ι)}
    (is : insn.moves = some moves) :
    insn.isJump = false ∧ insn.labels = [] := by
  cases insn <;> cases is <;> exact ⟨rfl, rfl⟩

theorem Merged.jumps_last {others : List (Instruction Op ι)} (merged : Merged insns others)
    (jumpsLast : JumpsLast terminated insns) : JumpsLast terminated others := by
  induction merged with
  | nil => trivial
  | keep _ later ih =>
    refine ⟨fun isJump => ?_, ih jumpsLast.2⟩
    obtain ⟨rfl, ends⟩ := jumpsLast.1 isJump
    cases later
    exact ⟨rfl, ends⟩
  | group is _ _ ih =>
    refine ⟨fun isJump => ?_, ih jumpsLast.of_append⟩
    rw [(is_jump_of_moves is).1] at isJump
    cases isJump

theorem Merged.labels_eq {others : List (Instruction Op ι)} (merged : Merged insns others) :
    others.flatMap Instruction.labels = insns.flatMap Instruction.labels := by
  induction merged with
  | nil => rfl
  | keep _ _ ih => rw [flatMap_cons, flatMap_cons, ih]
  | @group first more _ _ _ _ is _ _ ih =>
    have noLabels : ((first :: more).map ofMove).flatMap
        (labels : Instruction Op ι → List Nat) = [] := by
      simp [flatMap_map, ofMove, labels]
    rw [flatMap_cons, (is_jump_of_moves is).2, flatMap_append, noLabels, ih]

section
variable (blocksMatch : BlocksMatch rests blocks others)

include blocksMatch

omit [DecidableEq ι] in
theorem BlocksMatch.length_eq : others.length = blocks.length := by
  have same : ∀ label : Nat, blocks[label]? = none ↔ others[label]? = none := by
    intro label
    have related := blocksMatch label
    cases first : blocks[label]? <;> cases second : others[label]? <;>
      rw [first, second] at related <;> cases related <;> simp
  simp only [getElem?_eq_none_iff] at same
  exact Nat.le_antisymm ((same _).mp (Nat.le_refl _)) ((same _).mpr (Nat.le_refl _))

omit [DecidableEq ι] in
theorem BlocksMatch.origin {other : Block Op κ} (mem : other ∈ others) :
    ∃ block ∈ blocks, Block.Matched rests block other := by
  obtain ⟨label, here⟩ := mem_iff_getElem?.mp mem
  have related := blocksMatch label
  cases first : blocks[label]? <;> rw [first, here] at related <;> cases related
  case some.some block matched => exact ⟨block, mem_of_getElem? first, matched⟩

omit [DecidableEq ι] in
theorem BlocksMatch.image {label : Nat} (here : blocks[label]? = some block) :
    ∃ other, others[label]? = some other ∧ rests block.instructions other.instructions := by
  have related := blocksMatch label
  cases second : others[label]? <;> rw [here, second] at related <;> cases related
  case some.some other matched => exact ⟨other, rfl, matched.instructions⟩

omit [DecidableEq ι] in
theorem BlocksMatch.closed (keepsJumps : ∀ terminated insns others, rests insns others →
      JumpsLast terminated insns → JumpsLast terminated others)
    (keepsLabels : ∀ insns others, rests insns others →
      others.flatMap Instruction.labels = insns.flatMap Instruction.labels)
    {undefined : Option ι} (closed : Closed blocks undefined) {other : Option κ}
    (kept : undefined.isSome = true → other.isSome = true) : Closed others other := by
  constructor
  · intro later mem
    obtain ⟨block, original, matched⟩ := blocksMatch.origin mem
    rw [matched.terminated]
    exact keepsJumps _ _ _ matched.instructions (closed.jumpsLast block original)
  · intro later mem label isLabel
    obtain ⟨block, original, matched⟩ := blocksMatch.origin mem
    rw [blocksMatch.length_eq]
    refine closed.labelled block original label ?_
    rwa [Block.labels, keepsLabels _ _ matched.instructions, matched.handler] at isLabel
  · intro later mem open_
    obtain ⟨block, original, matched⟩ := blocksMatch.origin mem
    exact kept (closed.undefinedExists block original (matched.terminated ▸ open_))

end
end

/-! ## The assembled program -/

section
variable {Op Value World Effect : Type} {counts : Counts}

/-- No block has a move that the peephole drops though it is needed again. -/
def Program.KeepsMoves (program : Program Op counts) : Prop :=
  ∀ block ∈ program.blocks, dropsClobbered none block.instructions = false

/-- The operands whose final values the buffer keeps: all of them, unless a load of the saved
environment was removed. -/
def Program.Keeps (program : Program Op counts) (operand : Operand counts) : Prop :=
  Visible (Operand.savedLexicalEnvironment counts) program.blocks operand

def Program.offset (encoding : Encoding Op) (program : Program Op counts) (label : Nat) : Nat :=
  blockOffset encoding (preparedBlocks program) label

structure Program.SameResult (encoding : Encoding Op) (program : Program Op counts)
    (result : Result (Operand counts) Value World) (other : Result Nat Value World) : Prop where
  exit : other.exit = result.exit.mapLabel (program.offset encoding)
  values : ∀ operand, program.Keeps operand →
    result.values operand = other.values operand.offsetIndex
  world : other.world = result.world

def Program.renamedBlocks (program : Program Op counts) : List (Block Op Nat) :=
  (dropUnusedLoad (Operand.savedLexicalEnvironment counts) program.blocks).map
    (Block.mapOperands Operand.offsetIndex)

variable (prog : Program Op counts)

theorem frame_undefined :
    (prog.frame.map Operand.offsetIndex).undefined = undefinedOperand prog := by
  simp only [Frame.map, Program.frame, Option.map_map]
  rfl

theorem renamed_closed : Closed prog.renamedBlocks (prog.frame.map Operand.offsetIndex).undefined :=
  renamed_blocks_match.closed
    (fun _ _ _ follows jumpsLast => follows.jumps_last jumpsLast)
    (fun _ _ follows => follows.labels_eq) prog.closed
    (fun exists_ => by simpa [Frame.map, Program.frame] using exists_)

theorem renamed_match :
    BlocksMatch (Follows prog.Keeps Operand.offsetIndex) prog.blocks prog.renamedBlocks :=
  renamed_blocks_match

theorem keeps_reserved (register : ReservedRegister) : prog.Keeps (prog.frame.place register) := by
  intro _
  cases register <;> simp [Program.frame, reserved, savedLexicalEnvironment]

variable {prog}

theorem renamed_keeps_moves (keepsMoves : prog.KeepsMoves) :
    ∀ block ∈ prog.renamedBlocks, dropsClobbered none block.instructions = false := by
  intro later mem
  obtain ⟨block, original, matched⟩ := (renamed_match prog).origin mem
  have follows := matched.instructions
  rw [← keepsMoves block original]
  generalize later.instructions = others, block.instructions = insns at follows ⊢
  cases follows with
  | same => exact drops_clobbered_map offset_index_injective none
  | load => exact drops_clobbered_map offset_index_injective none

/-- The third of three moves may be left out when it repeats the first one and the second one
did not clobber it. Where every block keeps its moves, the buffer has the effects, exits and
values of the blocks, from every block and every state. -/
theorem assemble_preserves_meaning (program : Program Op counts) (encoding : Encoding Op)
    (semantics : Semantics Op Value World Effect) :
    (∀ first second : Operand counts × Operand counts,
      SameMoves [first, second, first] [first, second] ↔ ¬ Clobbers first second) ∧
    (program.KeepsMoves →
      ∀ (label : Nat) (block : Block Op (Operand counts)), program.blocks[label]? = some block →
        ∀ (values : Nat → Value) (world : World), Equivalent (program.SameResult encoding)
            (blockStep semantics program.frame program.blocks)
            ⟨label, block.instructions, fun operand => values operand.offsetIndex, world⟩
            (flatStep semantics encoding
              (fun register => (Operand.reserved counts register).offsetIndex)
              (assemble encoding program))
            ⟨program.offset encoding label, values, world⟩) := by
  refine ⟨repeated_move_iff, ?_⟩
  intro keepsMoves label block here values world
  have mergedMatch := merged_blocks_match (renamed_keeps_moves keepsMoves)
  obtain ⟨renamed, renamedHere, follows⟩ := (renamed_match program).image here
  obtain ⟨merged, mergedHere, isMerged⟩ := mergedMatch.image renamedHere
  have closed : Closed (preparedBlocks program) (program.frame.map offsetIndex).undefined :=
    mergedMatch.closed (fun _ _ _ merged jumpsLast => merged.jumps_last jumpsLast)
      (fun _ _ merged => merged.labels_eq) (renamed_closed program) id
  let origin : Config Op (Operand counts) Value World :=
    ⟨label, block.instructions, fun operand => values operand.offsetIndex, world⟩
  let start : Config Op Nat Value World := ⟨label, renamed.instructions, values, world⟩
  let later : Config Op Nat Value World := ⟨label, merged.instructions, values, world⟩
  have keepsUndefined : ∀ constant ∈ program.frame.undefined, program.Keeps constant := by
    intro constant undefined _ same
    obtain ⟨idx, -, rfl⟩ := Option.map_eq_some_iff.mp undefined
    cases same
  have first : Equivalent _ _ origin _ start :=
    (follows_simulates semantics program.frame offset_index_injective (renamed_match program)
      (keeps_reserved program) keepsUndefined).equivalent
      ⟨rfl, follows, fun _ _ => rfl, rfl⟩
  have second : Equivalent _ _ start _ later :=
    (merged_simulates semantics (program.frame.map offsetIndex) mergedMatch).equivalent
      ⟨rfl, isMerged, fun _ _ => rfl, rfl⟩
  have third : Equivalent _ _ later (flatStep semantics encoding _ _) _ :=
    (lay_out_simulates semantics closed).equivalent (placed_at_start mergedHere)
  rw [frame_undefined] at third
  refine ((first.trans second).trans third).mono ?_
  rintro result other ⟨after, ⟨middle, ⟨exit, agree, sameWorld⟩, exit', agree', sameWorld'⟩,
    exit'', values', sameWorld''⟩
  refine ⟨?_, ?_, ?_⟩
  · rw [exit'', exit', exit]
    rfl
  · intro operand keeps
    rw [agree operand keeps, values']
    exact agree' _ trivial
  · rw [sameWorld'', sameWorld', sameWorld]

end

/-! ## Small programs -/

def smallCounts : Counts := ⟨5, 3, 1, by decide⟩

def x : Operand smallCounts := .localVariable ⟨0, by decide⟩

def y : Operand smallCounts := .localVariable ⟨1, by decide⟩

def z : Operand smallCounts := .localVariable ⟨2, by decide⟩

def unitEncoding : Encoding Empty :=
  ⟨fun _ => 1, fun _ => by decide, fun _ _ => rfl, fun _ _ => rfl⟩

def plainSemantics : Semantics Empty Nat Unit Empty :=
  { perform := fun op => op.elim
    reserved := fun op => op.elim
    truthy := fun value => value != 0
    lexicalEnvironment := fun _ => 7 }

/-- `x = y; x = y; y = z; if (x) return y;`, then falls off the end. -/
def branchProgram : Program Empty smallCounts :=
  { blocks :=
      [⟨[.mov x y, .mov x y, .mov y z, .jumpIf x 1 2], none, true⟩, ⟨[.return y], none, true⟩,
        ⟨[], none, false⟩]
    undefinedConstant := some ⟨0, by decide⟩
    closed :=
      ⟨by simp [JumpsLast, Instruction.isJump], by simp [Block.labels, Instruction.labels],
        by simp⟩ }

theorem assemble_preserves_meaning_branch :
    branchProgram.KeepsMoves ∧ Equivalent (branchProgram.SameResult unitEncoding)
        (blockStep plainSemantics branchProgram.frame branchProgram.blocks)
        ⟨0, [.mov x y, .mov x y, .mov y z, .jumpIf x 1 2], fun operand => operand.offsetIndex, ()⟩
        (flatStep plainSemantics unitEncoding
          (fun register => (Operand.reserved smallCounts register).offsetIndex)
          (assemble unitEncoding branchProgram)) ⟨0, id, ()⟩ := by
  have keepsMoves : branchProgram.KeepsMoves := by
    unfold Program.KeepsMoves
    decide
  exact ⟨keepsMoves, (assemble_preserves_meaning branchProgram unitEncoding plainSemantics).2
    keepsMoves 0 _ rfl id ()⟩

/-- `x = y; y = z; x = y; return x` -/
def clobberedProgram : Program Empty smallCounts :=
  { blocks := [⟨[.mov x y, .mov y z, .mov x y, .return x], none, true⟩]
    undefinedConstant := none
    closed :=
      ⟨by simp [JumpsLast, Instruction.isJump], by simp [Block.labels, Instruction.labels],
        by simp⟩ }

/-- The load of the saved environment, then `return x`. -/
def loadProgram : Program Empty smallCounts :=
  { blocks :=
      [⟨[.getLexicalEnvironment (Operand.savedLexicalEnvironment smallCounts), .return x], none,
        true⟩]
    undefinedConstant := none
    closed :=
      ⟨by simp [JumpsLast, Instruction.isJump], by simp [Block.labels, Instruction.labels],
        by simp⟩ }

/-- Of `x = y; y = z; x = y` the last move is lost, and a removed load leaves the register it
would have written as it was. -/
theorem assembled_buffer_differs :
    (∃ result other, Halts (blockStep plainSemantics clobberedProgram.frame clobberedProgram.blocks)
        ⟨0, [.mov x y, .mov y z, .mov x y, .return x], fun operand => operand.offsetIndex, ()⟩ []
        result ∧
      result.exit = .returned 7 ∧ Halts (flatStep plainSemantics unitEncoding
          (fun register => (Operand.reserved smallCounts register).offsetIndex)
          (assemble unitEncoding clobberedProgram)) ⟨0, id, ()⟩ [] other ∧
      other.exit = .returned 6) ∧
    (∃ result other, Halts (blockStep plainSemantics loadProgram.frame loadProgram.blocks)
        ⟨0, [.getLexicalEnvironment (Operand.savedLexicalEnvironment smallCounts), .return x],
          fun operand => operand.offsetIndex, ()⟩ [] result ∧
      result.values (Operand.savedLexicalEnvironment smallCounts) = 7 ∧
      Halts (flatStep plainSemantics unitEncoding
          (fun register => (Operand.reserved smallCounts register).offsetIndex)
          (assemble unitEncoding loadProgram)) ⟨0, id, ()⟩ [] other ∧
      other.values (Operand.savedLexicalEnvironment smallCounts).offsetIndex = 4) :=
  ⟨⟨_, _, ⟨4, rfl⟩, rfl, ⟨2, rfl⟩, rfl⟩, ⟨_, _, ⟨2, rfl⟩, rfl, ⟨1, rfl⟩, rfl⟩⟩

end Ladybone.Assembler
