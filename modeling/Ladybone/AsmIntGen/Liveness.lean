import Ladybone.AsmIntGen.Allocator

/-!
# What the liveness iteration has found when it stops

The sets found for an instruction are what it reads, writes and destroys; the iteration stops
at a solution of the liveness equations; and dropping the declarations from a body leaves its
labels and the order of its instructions as they were.
-/

namespace Ladybone.AsmIntGen

open List UseDef

/-! ## Operands -/

def inputs : OperandKind → Operand → List String
  | .gprIn, .register name => [name]
  | .fprIn, .register name => [name]
  | .gprInOrImm, .register name => [name]
  | .gprInOut, .register name => [name]
  | .fprInOut, .register name => [name]
  | .memory, .memory base index scale => base :: (index.toList ++ scale.toList)
  | _, _ => []

def outputs : OperandKind → Operand → List String
  | .gprOut, .register name => [name]
  | .fprOut, .register name => [name]
  | .gprInOut, .register name => [name]
  | .fprInOut, .register name => [name]
  | _, _ => []

section
variable {isRegister : String → Bool} {name : String} {useDef : UseDef} {info : InstructionInfo}
  {start : Nat}

theorem mem_push_use_uses {pushed : String} :
    name ∈ (useDef.pushUse isRegister pushed).uses ↔
      name ∈ useDef.uses ∨ name = pushed ∧ isRegister name = true := by
  unfold pushUse
  split
  · rename_i named
    rw [Finset.mem_insert]
    constructor
    · rintro (rfl | old)
      · exact .inr ⟨rfl, named⟩
      · exact .inl old
    · rintro (old | ⟨rfl, -⟩)
      · exact .inr old
      · exact .inl rfl
  · rename_i unnamed
    constructor
    · exact .inl
    · rintro (old | ⟨rfl, named⟩)
      · exact old
      · exact absurd named unnamed

theorem mem_push_def_defs {pushed : String} :
    name ∈ (useDef.pushDef isRegister pushed).defs ↔
      name ∈ useDef.defs ∨ name = pushed ∧ isRegister name = true := by
  have same := @mem_push_use_uses isRegister name ⟨useDef.defs, ∅, ∅⟩ pushed
  unfold pushUse at same
  unfold pushDef
  split
  · rwa [if_pos (by assumption)] at same
  · rwa [if_neg (by assumption)] at same

@[simp]
theorem push_use_defs {pushed : String} :
    (useDef.pushUse isRegister pushed).defs = useDef.defs := by
  unfold pushUse
  split <;> rfl

@[simp]
theorem push_use_kills {pushed : String} :
    (useDef.pushUse isRegister pushed).kills = useDef.kills := by
  unfold pushUse
  split <;> rfl

@[simp]
theorem push_def_uses {pushed : String} :
    (useDef.pushDef isRegister pushed).uses = useDef.uses := by
  unfold pushDef
  split <;> rfl

@[simp]
theorem push_def_kills {pushed : String} :
    (useDef.pushDef isRegister pushed).kills = useDef.kills := by
  unfold pushDef
  split <;> rfl

theorem foldl_push_use (names : List String) (useDef : UseDef) :
    (name ∈ (names.foldl (UseDef.pushUse isRegister) useDef).uses ↔
      name ∈ useDef.uses ∨ name ∈ names ∧ isRegister name = true) ∧
    (names.foldl (UseDef.pushUse isRegister) useDef).defs = useDef.defs ∧
    (names.foldl (UseDef.pushUse isRegister) useDef).kills = useDef.kills := by
  induction names generalizing useDef with
  | nil => simp
  | cons first _ ih =>
    obtain ⟨uses, defs, kills⟩ := ih (useDef.pushUse isRegister first)
    simp only [foldl_cons]
    refine ⟨?_, by rw [defs, push_use_defs], by rw [kills, push_use_kills]⟩
    rw [uses, mem_push_use_uses, mem_cons, or_and_right, or_assoc]

theorem apply_operand_kind_spec (useDef : UseDef) (operand : Operand) (kind : OperandKind) :
    (name ∈ (applyOperandKind isRegister useDef operand kind).uses ↔
      name ∈ useDef.uses ∨ name ∈ inputs kind operand ∧ isRegister name = true) ∧
    (name ∈ (applyOperandKind isRegister useDef operand kind).defs ↔
      name ∈ useDef.defs ∨ name ∈ outputs kind operand ∧ isRegister name = true) ∧
    (applyOperandKind isRegister useDef operand kind).kills = useDef.kills := by
  cases kind with
  | memory =>
    cases operand with
    | memory base idx scale =>
      obtain ⟨uses, defs, kills⟩ := @foldl_push_use isRegister name
        (collectOperandRegisters (.memory base idx scale)) useDef
      refine ⟨uses, ?_, kills⟩
      simp only [applyOperandKind, outputs, not_mem_nil, false_and, or_false]
      rw [defs]
    | _ => simp [applyOperandKind, inputs, outputs]
  | _ =>
    cases operand <;> simp [applyOperandKind, inputs, outputs, mem_push_use_uses, mem_push_def_defs]

def Named (access : OperandKind → Operand → List String) (info : InstructionInfo) (start : Nat)
    (operands : List Operand) (name : String) : Prop :=
  ∃ index operand kind, operands[index]? = some operand ∧
    operandKindAt info (start + index) = some kind ∧ name ∈ access kind operand

theorem named_cons {access : OperandKind → Operand → List String}
    {operand : Operand} {rest : List Operand} {kind : OperandKind}
    (kinded : operandKindAt info start = some kind) :
    Named access info start (operand :: rest) name ↔
      name ∈ access kind operand ∨ Named access info (start + 1) rest name := by
  constructor
  · rintro ⟨idx, other, otherKind, found, otherKinded, mem⟩
    cases idx with
    | zero =>
      cases found
      rw [Nat.add_zero, kinded] at otherKinded
      cases otherKinded
      exact .inl mem
    | succ idx =>
      rw [show start + (idx + 1) = start + 1 + idx by omega] at otherKinded
      exact .inr ⟨idx, other, otherKind, found, otherKinded, mem⟩
  · rintro (mem | ⟨idx, other, otherKind, found, otherKinded, mem⟩)
    · exact ⟨0, operand, kind, rfl, kinded, mem⟩
    · rw [show start + 1 + idx = start + (idx + 1) by omega] at otherKinded
      exact ⟨idx + 1, other, otherKind, found, otherKinded, mem⟩

theorem apply_operands_spec {res : UseDef} {operands : List Operand}
    (applied : applyOperands isRegister info useDef start operands = some res) :
    (name ∈ res.uses ↔
      name ∈ useDef.uses ∨ Named inputs info start operands name ∧ isRegister name = true) ∧
    (name ∈ res.defs ↔
      name ∈ useDef.defs ∨ Named outputs info start operands name ∧ isRegister name = true) ∧
    res.kills = useDef.kills := by
  induction operands generalizing useDef start with
  | nil =>
    cases applied
    simp [Named]
  | cons operand _ ih =>
    simp only [applyOperands] at applied
    split at applied
    · cases applied
    · rename_i kind kinded
      obtain ⟨uses, defs, kills⟩ := ih applied
      obtain ⟨appliedUses, appliedDefs, appliedKills⟩ :=
        @apply_operand_kind_spec isRegister name useDef operand kind
      refine ⟨?_, ?_, kills.trans appliedKills⟩
      · rw [uses, appliedUses, named_cons kinded, or_and_right, or_assoc]
      · rw [defs, appliedDefs, named_cons kinded, or_and_right, or_assoc]

end

/-! ## What an instruction does -/

def kindOf (insn : AsmInstruction) (index : Nat) : Option OperandKind :=
  if (zeroedRegister insn).isSome then if index = 0 then some .gprOut else none
  else (lookup insn.mnemonic).bind fun info => operandKindAt info index

def accessed (access : OperandKind → Operand → List String) (insn : AsmInstruction) : List String :=
  insn.operands.zipIdx.flatMap fun entry =>
    (kindOf insn entry.2).elim [] fun kind => access kind entry.1

def readBy (arch : Arch) (temps : Temps) (insn : AsmInstruction) : List String :=
  (accessed inputs insn).filter (isRegisterName arch temps) ++
    (lookup insn.mnemonic).elim [] fun info => (info.arch arch).implicitInputs

def writtenBy (arch : Arch) (temps : Temps) (insn : AsmInstruction) : List String :=
  (accessed outputs insn).filter (isRegisterName arch temps) ++
    (lookup insn.mnemonic).elim [] fun info => (info.arch arch).implicitOutputs

/-- Zeroing a register destroys no other. -/
def killedBy (arch : Arch) (temps : Temps) (insn : AsmInstruction) : List String :=
  if (zeroedRegister insn).any (isRegisterName arch temps) then []
  else (lookup insn.mnemonic).elim [] (killSet arch)

/-- Control goes to the last definition of a label operand, and on unless the instruction ends
the handler. -/
def follows (body : List AsmInstruction) (index next : Nat) : Prop :=
  ∃ insn, body[index]? = some insn ∧
    ((∃ label, .label label ∈ insn.operands ∧ findLabel label body = some next) ∨
      isTerminal insn = some false ∧ next = index + 1 ∧ next < body.length)

/-- Declarations apart, the table knows the instruction and has a kind for each operand. -/
def isKnown (insn : AsmInstruction) : Bool :=
  insn.declares || (lookup insn.mnemonic).any fun info =>
    (List.range insn.operands.length).all fun index => (operandKindAt info index).isSome

/-- The sets found for an instruction are what it does. -/
structure Describes (arch : Arch) (temps : Temps) (insn : AsmInstruction) (useDef : UseDef) :
    Prop where
  uses : ∀ name, name ∈ useDef.uses ↔ name ∈ readBy arch temps insn
  defs : ∀ name, name ∈ useDef.defs ↔ name ∈ writtenBy arch temps insn
  kills : ∀ name, name ∈ useDef.kills ↔ name ∈ killedBy arch temps insn

section
variable {arch : Arch} {temps : Temps} {insn : AsmInstruction} {info : InstructionInfo}
  {useDef : UseDef} {name zeroed : String} {access : OperandKind → Operand → List String}

theorem mem_accessed :
    name ∈ accessed access insn ↔ ∃ idx operand kind, insn.operands[idx]? = some operand ∧
        kindOf insn idx = some kind ∧ name ∈ access kind operand := by
  simp only [accessed, mem_flatMap, Prod.exists, mem_zipIdx_iff_getElem?]
  constructor
  · rintro ⟨operand, idx, found, mem⟩
    cases kinded : kindOf insn idx with
    | none =>
      rw [kinded] at mem
      exact absurd mem not_mem_nil
    | some kind =>
      rw [kinded] at mem
      exact ⟨idx, operand, kind, found, kinded, mem⟩
  · rintro ⟨idx, operand, kind, found, kinded, mem⟩
    exact ⟨operand, idx, found, by rw [kinded]; exact mem⟩

theorem lookup_declares (declares : insn.declares = true) : lookup insn.mnemonic = none := by
  rcases (Bool.or_eq_true _ _).mp declares with named | named
  all_goals
    rw [beq_iff_eq.mp named]
    decide +kernel

theorem zeroed_register_some (zeroes : zeroedRegister insn = some zeroed) :
    insn.mnemonic = "xor" ∧ insn.operands = [.register zeroed, .register zeroed] := by
  unfold zeroedRegister at zeroes
  split at zeroes
  · rename_i named
    split at zeroes
    · rename_i first second operands
      split at zeroes
      · rename_i same
        cases zeroes
        exact ⟨named, by rw [operands, same]⟩
      · cases zeroes
    · cases zeroes
  · cases zeroes

def labelInfo : InstructionInfo := AsmIntGen.info "label" [.label] none false false {} {}

def xorInfo : InstructionInfo :=
  AsmIntGen.info "xor" [.gprInOut, .gprInOrImm] none false false {} { clobbersGpr := ["x9"] }

theorem describes_declaration (declares : insn.declares = true) :
    Describes arch temps insn {} := by
  have unknown := lookup_declares declares
  have plain : zeroedRegister insn = none := by
    cases zeroes : zeroedRegister insn with
    | none => rfl
    | some =>
      rw [(zeroed_register_some zeroes).1] at unknown
      cases unknown
  constructor <;> simp [readBy, writtenBy, killedBy, accessed, kindOf, unknown, plain]

theorem describes_label (label : insn.mnemonic = "label") : Describes arch temps insn {} := by
  have plain : zeroedRegister insn = none := by simp [zeroedRegister, label]
  have entry : lookup insn.mnemonic = some labelInfo := by
    rw [label]
    rfl
  have silent (access : OperandKind → Operand → List String)
      (none : ∀ operand, access .label operand = []) : accessed access insn = [] := by
    rw [eq_nil_iff_forall_not_mem]
    intro name mem
    obtain ⟨idx, operand, kind, -, kinded, among⟩ := mem_accessed.mp mem
    rw [kindOf, plain, entry] at kinded
    cases idx with
    | zero =>
      cases kinded
      rw [none] at among
      exact absurd among not_mem_nil
    | succ => cases kinded
  have reads := silent inputs (by intro operand; cases operand <;> rfl)
  have writes := silent outputs (by intro operand; cases operand <;> rfl)
  cases arch <;> constructor <;>
    simp [readBy, writtenBy, killedBy, reads, writes, entry, plain, labelInfo, AsmIntGen.info,
      InstructionInfo.arch, killSet]

theorem accessed_zeroed (zeroes : zeroedRegister insn = some zeroed) :
    accessed inputs insn = [] ∧ accessed outputs insn = [zeroed] := by
  have operands := (zeroed_register_some zeroes).2
  constructor <;> simp [accessed, kindOf, zeroes, operands, inputs, outputs]

theorem describes_zeroed (zeroes : zeroedRegister insn = some zeroed)
    (named : isRegisterName arch temps zeroed = true) :
    Describes arch temps insn { defs := {zeroed} } := by
  have entry : lookup insn.mnemonic = some xorInfo := by
    rw [(zeroed_register_some zeroes).1]
    rfl
  obtain ⟨reads, writes⟩ := accessed_zeroed zeroes
  cases arch <;> constructor <;>
    simp [readBy, writtenBy, killedBy, reads, writes, entry, zeroes, named, xorInfo,
      AsmIntGen.info, InstructionInfo.arch]

theorem named_iff_accessed (found : lookup insn.mnemonic = some info)
    (unzeroed : ∀ zeroed, zeroedRegister insn = some zeroed →
      isRegisterName arch temps zeroed = false)
    (own : ∀ kind name other, other ∈ access kind (.register name) → other = name) :
    Named access info 0 insn.operands name ∧ isRegisterName arch temps name = true ↔
      name ∈ (accessed access insn).filter (isRegisterName arch temps) := by
  rw [mem_filter]
  refine and_congr_left fun isRegister => ?_
  cases zeroes : zeroedRegister insn with
  | none =>
    have kinds (idx : Nat) : kindOf insn idx = operandKindAt info (0 + idx) := by
      rw [kindOf, zeroes, found, Nat.zero_add]
      rfl
    simp only [mem_accessed, Named, kinds]
  | some zeroed =>
    -- Only the zeroed name could be accessed, and it is no register.
    have other : name ≠ zeroed := by
      rintro rfl
      rw [unzeroed name zeroes] at isRegister
      cases isRegister
    have only (operand : Operand) (kind : OperandKind) (among : operand ∈ insn.operands) :
        name ∉ access kind operand := by
      rw [(zeroed_register_some zeroes).2] at among
      have same : operand = .register zeroed := by simpa using among
      rw [same]
      exact fun mem => other (own kind zeroed name mem)
    constructor
    · rintro ⟨idx, operand, kind, at_index, -, mem⟩
      exact absurd mem (only operand kind (mem_of_getElem? at_index))
    · intro mem
      obtain ⟨idx, operand, kind, at_index, -, mem⟩ := mem_accessed.mp mem
      exact absurd mem (only operand kind (mem_of_getElem? at_index))

theorem describes_operands (found : lookup insn.mnemonic = some info)
    (unzeroed : ∀ zeroed, zeroedRegister insn = some zeroed →
      isRegisterName arch temps zeroed = false)
    (analyzed : analyzeOperands insn arch temps = some useDef) :
    Describes arch temps insn useDef := by
  simp only [analyzeOperands, found] at analyzed
  obtain ⟨applied, spec, rfl⟩ := Option.map_eq_some_iff.mp analyzed
  have kept : (zeroedRegister insn).any (isRegisterName arch temps) = false := by
    cases zeroes : zeroedRegister insn with
    | none => rfl
    | some zeroed => exact unzeroed zeroed zeroes
  constructor <;> intro name <;>
    obtain ⟨uses, defs, kills⟩ := @apply_operands_spec _ name _ _ _ _ _ spec
  · rw [Finset.mem_union, uses, named_iff_accessed found unzeroed
      (by intro kind; cases kind <;> simp [inputs])]
    simp [readBy, found]
  · rw [Finset.mem_union, defs, named_iff_accessed found unzeroed
      (by intro kind; cases kind <;> simp [outputs])]
    simp [writtenBy, found]
  · simp [kills, killedBy, kept, found]

theorem analyze_instruction_describes {terminal : Bool} (known : isTerminal insn = some terminal)
    (analyzed : analyzeInstruction insn arch temps = some useDef) :
    Describes arch temps insn useDef := by
  unfold analyzeInstruction at analyzed
  split at analyzed
  · rename_i declares
    cases analyzed
    exact describes_declaration declares
  · rename_i stays
    have entry : ∃ info, lookup insn.mnemonic = some info := by
      cases looked : lookup insn.mnemonic with
      | none => simp [isTerminal, looked, stays] at known
      | some info => exact ⟨info, rfl⟩
    obtain ⟨info, found⟩ := entry
    split at analyzed
    · rename_i label
      cases analyzed
      exact describes_label label
    · split at analyzed
      · rename_i zeroed zeroes
        split at analyzed
        · rename_i named
          cases analyzed
          exact describes_zeroed zeroes named
        · rename_i unnamed
          refine describes_operands found (fun other same => ?_) analyzed
          cases zeroes.symm.trans same
          simpa using unnamed
      · rename_i plain
        exact describes_operands found (by simp [plain]) analyzed

theorem apply_operands_isSome {isRegister : String → Bool} {start : Nat} {operands : List Operand}
    (kinded : ∀ idx < operands.length, (operandKindAt info (start + idx)).isSome) :
    ∃ result, applyOperands isRegister info useDef start operands = some result := by
  induction operands generalizing start useDef with
  | nil => exact ⟨useDef, rfl⟩
  | cons operand rest ih =>
    obtain ⟨kind, first⟩ := Option.isSome_iff_exists.mp (kinded 0 (by simp))
    rw [Nat.add_zero] at first
    simp only [applyOperands, first]
    apply ih
    intro idx inside
    rw [show start + 1 + idx = start + (idx + 1) by omega]
    exact kinded (idx + 1) (Nat.succ_lt_succ inside)

theorem analyze_instruction_known (known : isKnown insn = true) :
    ∃ terminal useDef, isTerminal insn = some terminal ∧
      analyzeInstruction insn arch temps = some useDef := by
  by_cases declares : insn.declares = true
  · exact ⟨false, {}, by simp [isTerminal, lookup_declares declares, declares],
      by simp [analyzeInstruction, declares]⟩
  · cases looked : lookup insn.mnemonic with
    | none => simp [isKnown, looked, declares] at known
    | some info =>
      have kinded : ∀ idx < insn.operands.length, (operandKindAt info (0 + idx)).isSome := by
        simpa [isKnown, looked, declares] using known
      obtain ⟨applied, ok⟩ := @apply_operands_isSome info {} (isRegisterName arch temps) 0 _ kinded
      refine ⟨info.terminal, ?_⟩
      simp only [isTerminal, looked, true_and, analyzeInstruction, if_neg declares]
      have operands : ∃ useDef, analyzeOperands insn arch temps = some useDef := by
        simp only [analyzeOperands, looked, ok, Option.map_some]
        exact ⟨_, rfl⟩
      split
      · exact ⟨_, rfl⟩
      · split
        · split
          · exact ⟨_, rfl⟩
          · exact operands
        · exact operands

end

/-! ## The equations -/

theorem mapM_some {α β : Type} {f : α → Option β} {inputs : List α} {results : List β}
    (mapped : inputs.mapM f = some results) :
    results.length = inputs.length ∧ ∀ (idx : Nat) (input : α), inputs[idx]? = some input →
        ∃ res, results[idx]? = some res ∧ f input = some res := by
  induction inputs generalizing results with
  | nil =>
    cases mapped
    simp
  | cons _ _ ih =>
    rw [mapM_cons] at mapped
    obtain ⟨head, headed, mapped⟩ := Option.bind_eq_some_iff.mp mapped
    obtain ⟨tail, tailed, mapped⟩ := Option.bind_eq_some_iff.mp mapped
    cases mapped
    obtain ⟨length, found⟩ := ih tailed
    refine ⟨by simp [length], ?_⟩
    intro idx input at_index
    cases idx with
    | zero =>
      cases at_index
      exact ⟨head, rfl, headed⟩
    | succ idx => exact found idx input at_index

theorem flows_spec {arch : Arch} {temps : Temps} {body : List AsmInstruction}
    {computed : List Flow} (analyzed : flows arch temps body = some computed) {idx : Nat}
    {insn : AsmInstruction} (found : body[idx]? = some insn) :
    ∃ flow terminal, computed[idx]? = some flow ∧ isTerminal insn = some terminal ∧
      Describes arch temps insn flow.useDef ∧
      ∀ next, next ∈ flow.successors ↔ follows body idx next := by
  obtain ⟨-, mapped⟩ := mapM_some analyzed
  obtain ⟨flow, listed, made⟩ := mapped idx (insn, idx) (by simp [found])
  unfold flowAt at made
  split at made
  · rename_i terminal useDef ends described
    cases made
    refine ⟨_, terminal, listed, ends, analyze_instruction_describes ends described, ?_⟩
    intro next
    simp only [successorsOf, mem_append, branchTargets, mem_filterMap, follows, found,
      Option.some.injEq, exists_eq_left', ends]
    refine or_congr ⟨?_, ?_⟩ ?_
    · rintro ⟨operand, mem, target⟩
      cases operand with
      | label label => exact ⟨label, mem, target⟩
      | _ => cases target
    · rintro ⟨label, mem, target⟩
      exact ⟨.label label, mem, target⟩
    · cases terminal with
      | true => simp
      | false =>
        simp only [Bool.not_false, Bool.true_and, decide_eq_true_eq, true_and]
        split_ifs with inside
        · rw [mem_singleton]
          exact ⟨fun same => ⟨same, same ▸ inside⟩, And.left⟩
        · refine ⟨fun mem => absurd mem not_mem_nil, ?_⟩
          rintro ⟨rfl, behind⟩
          exact absurd behind inside
  · cases made

namespace LiveSets

variable {sets : LiveSets} {name : String} {flow : Flow}

theorem mem_new_out :
    name ∈ sets.newOut flow ↔ ∃ successor ∈ flow.successors, name ∈ sets.inAt successor := by
  suffices general : ∀ (successors : List Nat) (out : Finset String),
      name ∈ successors.foldl (fun out successor => out ∪ sets.inAt successor) out ↔
        name ∈ out ∨ ∃ successor ∈ successors, name ∈ sets.inAt successor by
    rw [newOut, general]
    simp
  intro successors
  induction successors with
  | nil => simp
  | cons _ _ ih =>
    intro out
    rw [foldl_cons, ih]
    simp [or_assoc]

theorem mem_new_in :
    name ∈ sets.newIn flow ↔ name ∈ flow.useDef.uses ∨
      name ∈ sets.newOut flow ∧ name ∉ flow.useDef.defs ∧ name ∉ flow.useDef.kills := by
  simp [newIn]

theorem update_unchanged {idx : Nat} (unchanged : (sets.update idx flow).changed = false) :
    sets.update idx flow = sets ∧ sets.inAt idx = sets.newIn flow ∧
      sets.outAt idx = sets.newOut flow := by
  unfold update at unchanged ⊢
  split at unchanged
  · cases unchanged
  · rename_i same
    obtain ⟨ins, outs⟩ := not_or.mp same
    rw [if_neg same]
    exact ⟨rfl, (not_not.mp ins).symm, (not_not.mp outs).symm⟩

theorem foldr_unchanged {entries : List (Flow × Nat)}
    (unchanged : (entries.foldr (fun entry sets => sets.update entry.2 entry.1) sets).changed =
      false) :
    entries.foldr (fun entry sets => sets.update entry.2 entry.1) sets = sets ∧
      ∀ entry ∈ entries, sets.inAt entry.2 = sets.newIn entry.1 ∧
        sets.outAt entry.2 = sets.newOut entry.1 := by
  induction entries with
  | nil => exact ⟨rfl, forall_mem_nil _⟩
  | cons _ _ ih =>
    obtain ⟨kept, ins, outs⟩ := update_unchanged unchanged
    rw [foldr_cons] at unchanged ⊢
    rw [kept] at unchanged ⊢
    obtain ⟨same, solved⟩ := ih unchanged
    rw [same] at ins outs
    refine ⟨same, ?_⟩
    exact forall_mem_cons.mpr ⟨⟨ins, outs⟩, solved⟩

def Solves (sets : LiveSets) (flows : List Flow) : Prop :=
  ∀ index flow, flows[index]? = some flow →
    sets.inAt index = sets.newIn flow ∧ sets.outAt index = sets.newOut flow

theorem iterate_solves {flows : List Flow} {fuel : Nat} {start : LiveSets}
    (iterated : iterate flows fuel start = some sets) : sets.Solves flows := by
  induction fuel generalizing start with
  | zero => cases iterated
  | succ _ ih =>
    simp only [iterate] at iterated
    split at iterated
    · exact ih iterated
    · rename_i stable
      cases iterated
      obtain ⟨same, solved⟩ := foldr_unchanged (Bool.not_eq_true _ ▸ stable)
      intro idx flow found
      unfold pass
      rw [same]
      exact solved (flow, idx) (by simp [mem_zipIdx_iff_getElem?, found])

end LiveSets

theorem live_at_entry_none {temps : Temps} {sets : LiveSets} :
    liveAtEntry temps sets = none ↔ ∀ name, temps.contains name = true → name ∉ sets.inAt 0 := by
  rw [liveAtEntry, head?_eq_none_iff, eq_nil_iff_forall_not_mem]
  simp [Temps.contains, or_imp]

end Ladybone.AsmIntGen
