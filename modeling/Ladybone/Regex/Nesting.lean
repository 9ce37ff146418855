import Ladybone.Regex.Compile
import Ladybone.Support.Layout

/-!
# How the emitted code nests

`PushModifiers` and `PopModifiers`, and `LookStart` and `LookEnd`, are brackets in the
instruction stream. `enclosing program pc` lists the opening brackets around an
instruction, innermost first. The code of every part of a pattern closes the brackets it
opens, and no jump leaves or enters a bracket.
-/

namespace Ladybone.Regex.Nesting

open Regex.Syntax Regex.Compile Support.Layout List

def enclosingAfter (around : List Nat) (pc : Nat) : Instruction → List Nat
  | .pushModifiers _ _ _ => pc :: around
  | .lookStart _ _ _ => pc :: around
  | .popModifiers => around.tail
  | .lookEnd => around.tail
  | _ => around

/-- The brackets open in front of an instruction. -/
def enclosing (program : List Instruction) : Nat → List Nat
  | 0 => []
  | pc + 1 =>
    match program[pc]? with
    | some instruction => enclosingAfter (enclosing program pc) pc instruction
    | none => enclosing program pc

variable {insn : Instruction}

theorem enclosing_succ {prog : List Instruction} {pc : Nat} (found : prog[pc]? = some insn) :
    enclosing prog (pc + 1) = enclosingAfter (enclosing prog pc) pc insn := by
  simp [enclosing, found]

def targets : Instruction → List Nat
  | .jump target => [target]
  | .split prefer other => [prefer, other]
  | .repeatCheck _ _ _ body _ => [body]
  | .lookStart _ _ finish => [finish]
  | _ => []

/-- Brackets, and the end of the program, which stands outside all of them. -/
def isBracket : Instruction → Bool
  | .pushModifiers _ _ _ => true
  | .lookStart _ _ _ => true
  | .popModifiers => true
  | .lookEnd => true
  | .accept => true
  | _ => false

theorem enclosing_after_plain (plain : isBracket insn = false)
    (around : List Nat) (pc : Nat) : enclosingAfter around pc insn = around := by
  cases insn <;> first | rfl | cases plain

/-- What a closing bracket finds: it ends the innermost bracket, which is of its kind. The
end of the program finds no open bracket. -/
def ClosesInnermost (program : List Instruction) (pc : Nat) : Instruction → Prop
  | .popModifiers => ∃ (opened : Nat) (ignoreCase multiline dotAll : Option Bool),
      program[opened]? = some (.pushModifiers ignoreCase multiline dotAll) ∧
        enclosing program pc = opened :: enclosing program opened
  | .lookEnd => ∃ (opened : Nat) (positive forward : Bool) (finish : Nat),
      program[opened]? = some (.lookStart positive forward finish) ∧
        enclosing program pc = opened :: enclosing program opened
  | .accept => enclosing program pc = []
  | _ => True

/-- The code from `first` up to `last` closes what it opens, and its jumps stay inside the
bracket they are in. -/
structure Nested (program : List Instruction) (first last : Nat) : Prop where
  closed : enclosing program last = enclosing program first
  inside : ∀ (pc : Nat) (instruction : Instruction), first ≤ pc → pc < last →
    program[pc]? = some instruction →
      (∀ target ∈ targets instruction, enclosing program target = enclosing program pc) ∧
        ClosesInnermost program pc instruction

variable {prog : List Instruction} {emits : List Emit} {body emit : Emit}

theorem Nested.refl (pc : Nat) : Nested prog pc pc where
  closed := rfl
  inside := fun _ _ after before => absurd before (Nat.not_lt.mpr after)

theorem Nested.trans {first middle last : Nat} (left : Nested prog first middle)
    (right : Nested prog middle last) : Nested prog first last where
  closed := right.closed.trans left.closed
  inside := by
    intro pc insn after before found
    by_cases low : pc < middle
    · exact left.inside pc insn after low found
    · exact right.inside pc insn (Nat.not_lt.mp low) before found

theorem nested_plain {pc : Nat} (found : prog[pc]? = some insn) (plain : isBracket insn = false)
    (kept : ∀ target ∈ targets insn, enclosing prog target = enclosing prog pc) :
    Nested prog pc (pc + 1) where
  closed := by rw [enclosing_succ found, enclosing_after_plain plain]
  inside := by
    intro place other after before foundOther
    obtain rfl : place = pc := by omega
    cases foundOther.symm.trans found
    refine ⟨kept, ?_⟩
    cases insn <;> trivial

theorem nested_around {first last : Nat} {opening closing : Instruction}
    (opened : prog[first]? = some opening) (closes : prog[last]? = some closing)
    (plain : isBracket opening = false) (closingPlain : isBracket closing = false)
    (body : Nested prog (first + 1) last)
    (stays : ∀ target ∈ targets opening ++ targets closing, enclosing prog target ∈
      [first, first + 1, last, last + 1].map (enclosing prog)) :
    Nested prog first (last + 1) := by
  have afterOpening : enclosing prog (first + 1) = enclosing prog first := by
    rw [enclosing_succ opened, enclosing_after_plain plain]
  have atLast := body.closed.trans afterOpening
  have afterAll : enclosing prog (last + 1) = enclosing prog first := by
    rw [enclosing_succ closes, enclosing_after_plain closingPlain, atLast]
  have level : ∀ target ∈ targets opening ++ targets closing,
      enclosing prog target = enclosing prog first := by
    intro target mem
    have listed := stays target mem
    rw [map_cons, map_cons, map_cons, map_singleton, afterOpening, atLast, afterAll] at listed
    simpa using listed
  have openingNested := nested_plain opened plain fun target mem =>
    level target (mem_append_left _ mem)
  have closingNested := nested_plain closes closingPlain fun target mem =>
    (level target (mem_append_right _ mem)).trans atLast.symm
  exact openingNested.trans (body.trans closingNested)

theorem nested_bracket {first last : Nat} {opening closing : Instruction}
    (opened : prog[first]? = some opening) (closes : prog[last]? = some closing)
    (opens : enclosingAfter (enclosing prog first) first opening = first :: enclosing prog first)
    (ends : ∀ around pc, enclosingAfter around pc closing = around.tail)
    (matching : enclosing prog last = first :: enclosing prog first →
      ClosesInnermost prog last closing)
    (openingPlain : ClosesInnermost prog first opening) (closingStays : targets closing = [])
    (openingTargets : enclosing prog (last + 1) = enclosing prog first →
      ∀ target ∈ targets opening, enclosing prog target = enclosing prog first)
    (body : Nested prog (first + 1) last) : Nested prog first (last + 1) := by
  have inner : enclosing prog (first + 1) = first :: enclosing prog first := by
    rw [enclosing_succ opened, opens]
  have atEnd : enclosing prog last = first :: enclosing prog first :=
    body.closed.trans inner
  have closedAll : enclosing prog (last + 1) = enclosing prog first := by
    rw [enclosing_succ closes, ends, atEnd, tail_cons]
  refine ⟨closedAll, ?_⟩
  intro pc insn after before found
  rcases Nat.lt_trichotomy pc last with low | rfl | high
  · rcases Nat.lt_or_eq_of_le after with strict | rfl
    · exact body.inside pc insn strict low found
    · cases found.symm.trans opened
      exact ⟨openingTargets closedAll, openingPlain⟩
  · cases found.symm.trans closes
    exact ⟨by simp [closingStays], matching atEnd⟩
  · omega

def Nests (emit : Emit) : Prop :=
  ∀ (program : List Instruction) (offset register : Nat),
    Placed program offset (emit offset register).1 →
      Nested program offset (offset + (emit offset register).1.length)

/-- Nested code that takes new registers from the given one on. -/
structure Emits (emit : Emit) : Prop where
  nests : Nests emit
  keeps : ∀ offset register, register ≤ (emit offset register).2

theorem emits_empty : Emits Emit.empty :=
  ⟨fun _ off _ _ => Nested.refl off, fun _ => Nat.le_refl⟩

theorem emits_one (plain : isBracket insn = false)
    (stays : targets insn = []) : Emits (Emit.one insn) := by
  refine ⟨?_, fun _ => Nat.le_refl⟩
  intro prog off reg placed
  exact nested_plain placed.head plain (by simp [stays])

theorem emits_append {first second : Emit} (left : Emits first) (right : Emits second) :
    Emits (Emit.append first second) := by
  refine ⟨?_, fun off reg => (left.keeps off reg).trans (right.keeps _ _)⟩
  intro prog off reg placed
  have leftNested := left.nests prog off reg placed.left
  have rightNested := right.nests prog _ _ placed.right
  simp only [Emit.append, length_append, ← Nat.add_assoc]
  exact leftNested.trans rightNested

theorem emits_concat (each : ∀ emit ∈ emits, Emits emit) : Emits (Emit.concat emits) := by
  induction emits with
  | nil => exact emits_empty
  | cons first rest ih =>
    obtain ⟨firstEmits, restEmits⟩ := forall_mem_cons.mp each
    exact emits_append firstEmits (ih restEmits)

theorem emits_split_chain (each : ∀ emit ∈ emits, Emits emit) : Emits (Emit.splitChain emits) := by
  induction emits with
  | nil => exact emits_empty
  | cons first rest ih =>
    obtain ⟨firstEmits, restEmits⟩ := forall_mem_cons.mp each
    cases rest with
    | nil => exact firstEmits
    | cons second rest =>
      refine ⟨?_, fun _ reg => (firstEmits.keeps _ reg).trans ((ih restEmits).keeps _ _)⟩
      intro prog off reg placed
      simp only [Emit.splitChain] at placed ⊢
      set body := first (off + 1) reg with bodyIs
      set tail := Emit.splitChain (second :: rest) (off + body.1.length + 2) body.2 with tailIs
      have bodyNested : Nested prog (off + 1) (off + 1 + body.1.length) :=
        firstEmits.nests prog (off + 1) reg placed.left.tail
      have jumpPlaced : Placed prog (off + 1 + body.1.length)
          (.jump (off + body.1.length + 2 + tail.1.length) :: tail.1) := placed.behind
      have next : off + body.1.length + 2 = off + 1 + body.1.length + 1 := by omega
      have tailNested : Nested prog (off + body.1.length + 2)
          (off + body.1.length + 2 + tail.1.length) := by
        have tailPlaced := jumpPlaced.tail
        rw [← next] at tailPlaced
        exact (ih restEmits).nests prog _ _ tailPlaced
      have headNested : Nested prog off (off + body.1.length + 2) := by
        rw [next]
        apply nested_around placed.left.head jumpPlaced.head rfl rfl bodyNested
        intro target mem
        simp only [targets, mem_append, mem_pair, mem_singleton] at mem
        rcases mem with (rfl | rfl) | rfl
        · exact mem_map_of_mem (by simp)
        · exact mem_map_of_mem (by simp [next])
        · rw [tailNested.closed]
          exact mem_map_of_mem (by simp [next])
      have total : off + (Instruction.split (off + 1) (off + body.1.length + 2) ::
          body.1 ++ .jump (off + body.1.length + 2 + tail.1.length) :: tail.1).length =
          off + body.1.length + 2 + tail.1.length := by
        simp only [length_append, length_cons]
        omega
      rw [total]
      exact headNested.trans tailNested

theorem length_around {opening closing : Instruction} {code : List Instruction} (off : Nat) :
    off + (opening :: code ++ [closing]).length = off + 1 + code.length + 1 := by
  simp only [length_append, length_cons, length_nil]
  omega

theorem emits_look {positive forward : Bool} (bodyEmits : Emits body) :
    Emits (Emit.look positive forward body) := by
  refine ⟨?_, fun _ => bodyEmits.keeps _⟩
  intro prog off reg placed
  simp only [Emit.look] at placed ⊢
  set code := body (off + 1) reg with codeIs
  have bodyNested : Nested prog (off + 1) (off + 1 + code.1.length) :=
    bodyEmits.nests prog (off + 1) reg placed.left.tail
  have opened := placed.left.head
  have closes := placed.behind.head
  rw [length_around]
  apply nested_bracket opened closes rfl (fun _ _ => rfl) _ trivial rfl _ bodyNested
  · intro atEnd
    exact ⟨off, positive, forward, _, opened, atEnd⟩
  · intro closedAll target mem
    rw [mem_singleton.mp mem, ← closedAll]
    congr 1
    omega

theorem emits_modifiers {ignoreCase multiline dotAll : Option Bool} (bodyEmits : Emits body) :
    Emits (Emit.append (Emit.one (.pushModifiers ignoreCase multiline dotAll))
      (Emit.append body (Emit.one .popModifiers))) := by
  refine ⟨?_, fun _ => bodyEmits.keeps _⟩
  intro prog off reg placed
  simp only [Emit.append, Emit.one, length_singleton] at placed ⊢
  set code := body (off + 1) reg with codeIs
  have opened := placed.left.head
  have bodyNested : Nested prog (off + 1) (off + 1 + code.1.length) :=
    bodyEmits.nests prog (off + 1) reg placed.right.left
  have closes := placed.right.right.head
  have total : off + ([Instruction.pushModifiers ignoreCase multiline dotAll] ++
      (code.1 ++ [Instruction.popModifiers])).length = off + 1 + code.1.length + 1 :=
    length_around off
  rw [total]
  apply nested_bracket opened closes rfl (fun _ _ => rfl) _ trivial rfl _ bodyNested
  · intro atEnd
    exact ⟨off, ignoreCase, multiline, dotAll, opened, atEnd⟩
  · intro _ target mem
    cases mem

section
variable {atom : Atom} {copy : Emit}

theorem emits_clear_captures (atom : Atom) : Emits (clearCaptures atom) := by
  apply emits_concat
  rw [forall_mem_map]
  exact fun _ _ => emits_one rfl rfl

theorem emits_iteration (copyEmits : Emits copy) (progress : Option Nat) :
    Emits (iteration progress atom copy) := by
  have body := emits_append (emits_clear_captures atom) copyEmits
  cases progress with
  | none => exact body
  | some =>
    exact emits_append (emits_one rfl rfl) (emits_append body (emits_one rfl rfl))

theorem emits_required_copies (copyEmits : Emits copy) (count : Nat) :
    Emits (requiredCopies atom copy count) := by
  induction count with
  | zero => exact emits_empty
  | succ _ ih =>
    apply emits_append ih
    split
    · exact copyEmits
    · exact emits_append (emits_clear_captures atom) copyEmits

theorem emits_repeated (emitEmits : Emits emit) (count : Nat) : Emits (repeated emit count) := by
  induction count with
  | zero => exact emits_empty
  | succ _ ih => exact emits_append emitEmits ih

theorem targets_choice {greedy : Bool} {body after target : Nat}
    (mem : target ∈ targets (choice greedy body after)) : target = body ∨ target = after := by
  cases greedy
  · exact (mem_pair.mp mem).symm
  · exact mem_pair.mp mem

theorem choice_plain (greedy : Bool) (body after : Nat) :
    isBracket (choice greedy body after) = false := by
  cases greedy <;> rfl

section
variable (copyEmits : Emits copy)

include copyEmits

theorem emits_optional_copy (needsProgressCheck greedy : Bool) :
    Emits (optionalCopy atom needsProgressCheck greedy copy) := by
  refine ⟨?_, fun _ reg => le_trans (by split <;> omega) ((emits_iteration copyEmits _).keeps _ _)⟩
  intro prog off reg placed
  simp only [optionalCopy] at placed ⊢
  have bodyNested := (emits_iteration copyEmits _).nests prog _ _ placed.tail
  set body := iteration (if needsProgressCheck then some reg else none) atom copy
    (off + 1) (if needsProgressCheck then reg + 1 else reg)
  have afterChoice : enclosing prog (off + 1) = enclosing prog off := by
    rw [enclosing_succ placed.head, enclosing_after_plain (choice_plain _ _ _)]
  have last : off + (choice greedy (off + 1) (off + body.1.length + 1) ::
      body.1).length = off + 1 + body.1.length := by
    simp only [length_cons]
    omega
  rw [last]
  refine Nested.trans (nested_plain placed.head (choice_plain _ _ _) ?_) bodyNested
  intro target mem
  rcases targets_choice mem with rfl | rfl
  · exact afterChoice
  · rw [Nat.add_right_comm, bodyNested.closed, afterChoice]

theorem emits_unbounded_loop (greedy : Bool) : Emits (unboundedLoop atom greedy copy) := by
  refine ⟨?_, fun _ reg => le_trans (Nat.le_succ reg) ((emits_iteration copyEmits _).keeps _ _)⟩
  intro prog off reg placed
  simp only [unboundedLoop] at placed ⊢
  have bodyNested := (emits_iteration copyEmits _).nests prog _ _ placed.left.tail
  set body := iteration (if atomCanBeZeroWidth atom then some reg else none) atom copy
    (off + 1) (reg + 1)
  rw [length_around]
  apply nested_around placed.left.head placed.behind.head (choice_plain _ _ _) rfl bodyNested
  intro target mem
  have atEnd : off + body.1.length + 2 = off + 1 + body.1.length + 1 := by omega
  rcases mem_append.mp mem with chosen | back
  · rcases targets_choice chosen with rfl | rfl
    · exact mem_map_of_mem (by simp)
    · exact mem_map_of_mem (by simp [atEnd])
  · rw [mem_singleton.mp back]
    exact mem_map_of_mem mem_cons_self

theorem emits_counted_loop (quantifier : Quantifier) :
    Emits (countedLoop atom quantifier copy) := by
  refine ⟨?_, fun _ reg => le_trans (by split <;> omega) ((emits_iteration copyEmits _).keeps _ _)⟩
  intro prog off reg placed
  simp only [countedLoop] at placed ⊢
  have bodyNested := (emits_iteration copyEmits _).nests prog _ _ placed.left.tail
  set body := iteration (if atomCanBeZeroWidth atom then some (reg + 1) else none) atom copy
    (off + 1) (if atomCanBeZeroWidth atom then reg + 2 else reg + 1)
  rw [length_around]
  apply nested_around placed.left.head placed.behind.head rfl rfl bodyNested
  intro target mem
  rw [mem_singleton.mp mem]
  exact mem_map_of_mem (by simp)

theorem emits_counted_optional (optionalCount : Nat) (greedy : Bool) :
    Emits (countedOptionalRepetitions atom optionalCount greedy copy) := by
  refine ⟨?_, fun _ reg => le_trans (Nat.le_succ reg) ((emits_iteration copyEmits _).keeps _ _)⟩
  intro prog off reg placed
  simp only [countedOptionalRepetitions] at placed ⊢
  have checkFound : prog[off + 1]? =
      some (.repeatCheck reg 0 (some optionalCount) (off + 3) greedy) :=
    placed.left.tail.head
  have skipFound := placed.left.tail.tail.head
  have bodyNested := (emits_iteration copyEmits none).nests prog (off + 3) (reg + 1)
    placed.left.tail.tail.tail
  set body := iteration none atom copy (off + 3) (reg + 1)
  have backFound : prog[off + 3 + body.1.length]? = some (.jump (off + 1)) := by
    have found := placed.right.head
    have same : off + (Instruction.repeatStart reg ::
        .repeatCheck reg 0 (some optionalCount) (off + 3) greedy ::
        .jump (off + body.1.length + 4) :: body.1).length = off + 3 + body.1.length := by
      simp only [length_cons]
      omega
    rwa [same] at found
  have startNested : Nested prog off (off + 1) :=
    nested_plain placed.left.head rfl (fun target mem => by cases mem)
  have afterCheck : enclosing prog (off + 2) = enclosing prog (off + 1) :=
    enclosing_succ checkFound
  have checkNested : Nested prog (off + 1) (off + 2) := by
    apply nested_plain checkFound rfl
    intro target mem
    rwa [mem_singleton.mp mem, enclosing_succ skipFound]
  have loopNested : Nested prog (off + 2) (off + 3 + body.1.length + 1) := by
    apply nested_around skipFound backFound rfl rfl bodyNested
    intro target mem
    have atEnd : off + body.1.length + 4 = off + 3 + body.1.length + 1 := by omega
    rcases mem_pair.mp mem with rfl | rfl
    · exact mem_map_of_mem (by simp [atEnd])
    · rw [← afterCheck]
      exact mem_map_of_mem mem_cons_self
  have last : off + (Instruction.repeatStart reg ::
      .repeatCheck reg 0 (some optionalCount) (off + 3) greedy ::
      .jump (off + body.1.length + 4) :: body.1 ++ [Instruction.jump (off + 1)]).length =
      off + 3 + body.1.length + 1 := by
    simp only [length_append, length_cons, length_nil]
    omega
  rw [last]
  exact startNested.trans (checkNested.trans loopNested)

theorem emits_optional_part (quantifier : Quantifier) :
    Emits (optionalPart atom quantifier copy) := by
  unfold optionalPart
  split
  · split
    · exact emits_empty
    · split
      · exact emits_repeated (emits_optional_copy copyEmits _ _) _
      · exact emits_counted_optional copyEmits _ _
  · exact emits_unbounded_loop copyEmits _

end

theorem emits_quantified {host : Platform} (comp : Compiler) (copyEmits : Emits copy)
    (quantifier : Quantifier) :
    Emits (compileQuantified host comp atom quantifier copy) := by
  unfold compileQuantified
  split
  · split
    · exact emits_repeated copyEmits _
    · unfold simpleLoop
      split
      all_goals exact emits_one rfl rfl
  · split
    · exact emits_counted_loop copyEmits quantifier
    · exact emits_append (emits_required_copies copyEmits _) (emits_optional_part copyEmits _)

end

section
variable {host : Platform} {operands : List (Bool × Emit)}

section
variable (comp : Compiler)

include comp

theorem emits_char (codePoint : Nat) : Emits (charMaybeCaseFold host comp codePoint) := by
  unfold charMaybeCaseFold
  split
  all_goals exact emits_one rfl rfl

theorem emits_string (string : List Nat) : Emits (codePointString host comp string) := by
  apply emits_concat
  rw [forall_mem_map]
  exact fun codePoint _ => emits_char comp codePoint

theorem emits_complement (bodyEmits : Emits body) : Emits (complement comp body) :=
  emits_append (emits_look bodyEmits) (emits_one rfl rfl)

theorem emits_ranges_class (items : List CharacterClassRange) (negated : Bool) :
    Emits (compileRangesClass host comp items negated) := by
  have components : Emits (Emit.splitChain (items.map (classComponent host comp))) := by
    apply emits_split_chain
    rw [forall_mem_map]
    intro item _
    cases item with
    | single codePoint => exact emits_char comp codePoint
    | range | builtinClass | unicodeProperty => exact emits_one rfl rfl
  unfold compileRangesClass
  split
  · exact emits_one rfl rfl
  · unfold compileComplexClass
    split
    · split
      · exact emits_one rfl rfl
      · exact emits_complement comp components
    · exact components

end

theorem emits_alternatives_or_fail (each : ∀ emit ∈ emits, Emits emit) :
    Emits (alternativesOrFail emits) := by
  unfold alternativesOrFail
  split
  · exact emits_one rfl rfl
  · exact emits_split_chain each

theorem emits_only_length_one (emitEmits : Emits emit) (len : Nat) :
    Emits (onlyLengthOne len emit) := by
  unfold onlyLengthOne
  split
  · exact emitEmits
  · exact emits_one rfl rfl

theorem emits_checks (forward : Bool) (each : ∀ operand ∈ operands, Emits operand.2) :
    Emits (intersectionChecks forward operands) ∧ Emits (subtractionChecks forward operands) := by
  induction operands with
  | nil => exact ⟨emits_empty, emits_empty⟩
  | cons first rest ih =>
    obtain ⟨firstEmits, restEmits⟩ := forall_mem_cons.mp each
    obtain ⟨intersects, subtracts⟩ := ih restEmits
    have looks {positive : Bool} : Emits (Emit.look positive forward first.2) :=
      emits_look firstEmits
    simp only [intersectionChecks, subtractionChecks]
    split
    · exact ⟨emits_append looks intersects, emits_append looks subtracts⟩
    · exact ⟨emits_one rfl rfl, subtracts⟩

theorem emits_unicode_set_class (comp : Compiler) (expression : ClassSetExpression)
    (negated : Bool) {atLength : Nat → Emit} (each : ∀ len, Emits (atLength len)) :
    Emits (compileUnicodeSetClass host comp expression negated atLength) := by
  have members : Emits (compileClassSetExpression host comp expression atLength) := by
    apply emits_alternatives_or_fail
    rw [forall_mem_map]
    exact fun len _ => each len
  unfold compileUnicodeSetClass
  split
  · split
    all_goals exact emits_one rfl rfl
  · split
    · exact emits_one rfl rfl
    · simp only
      split
      · exact emits_complement comp members
      · exact members

mutual

theorem emits_expression_at_length (comp : Compiler) (expression : ClassSetExpression)
    (len : Nat) :
    Emits (compileClassSetExpressionAtLength host comp expression len) := by
  cases expression with
  | union operands =>
    apply emits_alternatives_or_fail
    rw [forall_mem_map]
    intro operand kept
    exact emits_operands comp operands len operand (mem_filter.mp kept).1
  | intersection operands | subtraction operands =>
    simp only [compileClassSetExpressionAtLength]
    have first := emits_operands comp operands len
    have others := emits_operands (comp.facing comp.backward) operands len
    split
    · exact emits_one rfl rfl
    · rename_i head rest listed
      rw [listed] at first
      have checks := emits_checks comp.backward fun operand mem =>
        others operand (mem_of_mem_tail mem)
      refine emits_append (first head mem_cons_self) ?_
      first | exact checks.1 | exact checks.2

theorem emits_operands (comp : Compiler) (operands : ClassSetOperands) (len : Nat) :
    ∀ operand ∈ operandsAtLength host comp operands len, Emits operand.2 := by
  cases operands with
  | nil => exact forall_mem_nil _
  | cons head rest =>
    rw [operandsAtLength, forall_mem_cons]
    exact ⟨emits_operand comp head len, emits_operands comp rest len⟩

theorem emits_operand (comp : Compiler) (operand : ClassSetOperand) (len : Nat) :
    Emits (compileClassSetOperandAtLength host comp operand len) := by
  cases operand with
  | char codePoint => exact emits_only_length_one (emits_char comp codePoint) len
  | range | builtinClass => exact emits_only_length_one (emits_one rfl rfl) len
  | nestedClass nested =>
    cases nested with
    | ranges negated items =>
      exact emits_only_length_one (emits_ranges_class comp items negated) len
    | unicodeSet _ expression =>
      simp only [compileClassSetOperandAtLength]
      split
      · apply emits_only_length_one
        exact emits_unicode_set_class comp expression true
          (emits_expression_at_length comp expression)
      · exact emits_expression_at_length comp expression len
  | unicodeProperty =>
    simp only [compileClassSetOperandAtLength]
    split
    · apply emits_alternatives_or_fail
      rw [forall_mem_map]
      exact fun string _ => emits_string comp string
    · exact emits_only_length_one (emits_one rfl rfl) len
  | stringLiteral chars =>
    simp only [compileClassSetOperandAtLength]
    split
    · exact emits_string comp chars
    · exact emits_one rfl rfl

end

theorem emits_character_class (comp : Compiler) (body : CharacterClass) :
    Emits (compileCharacterClass host comp body) := by
  cases body with
  | ranges negated items => exact emits_ranges_class comp items negated
  | unicodeSet negated expression =>
    exact emits_unicode_set_class comp expression negated
      (emits_expression_at_length comp expression)

end

section
variable {host : Platform}

theorem emits_join (comp : Compiler) (disjunction : Disjunction)
    (each : ∀ emit ∈ emits, Emits emit) :
    Emits (joinAlternatives host comp disjunction emits) := by
  unfold joinAlternatives
  split
  · exact emits_one rfl rfl
  · exact emits_split_chain each

mutual

theorem emits_atom (comp : Compiler) (atom : Atom) : Emits (compileAtom host comp atom) := by
  cases atom with
  | literal codePoint =>
    simp only [compileAtom]
    split
    · exact emits_append (emits_one rfl rfl) (emits_one rfl rfl)
    · exact emits_char comp codePoint
  | dot | builtinCharacterClass => exact emits_one rfl rfl
  | characterClass body => exact emits_character_class comp body
  | unicodeProperty =>
    simp only [compileAtom]
    split
    · unfold stringPropertyMatch
      simp only
      split
      all_goals exact emits_one rfl rfl
    · exact emits_one rfl rfl
  | group _ body =>
    exact emits_append (emits_one rfl rfl)
      (emits_append (emits_join comp body (emits_alternatives comp body)) (emits_one rfl rfl))
  | nonCapturingGroup body => exact emits_join comp body (emits_alternatives comp body)
  | lookaround _ body => exact emits_look (emits_join _ body (emits_alternatives _ body))
  | backreference reference =>
    cases reference with
    | index | named => exact emits_one rfl rfl
  | assertion kind => cases kind <;> exact emits_one rfl rfl
  | modifierGroup _ _ body =>
    exact emits_modifiers (emits_join _ body (emits_alternatives _ body))

theorem emits_alternative (comp : Compiler) (alternative : Alternative) :
    Emits (compileAlternative host comp alternative) := by
  cases alternative with
  | nil => exact emits_empty
  | cons atom quantifier rest =>
    have copyEmits := emits_atom comp atom
    have restEmits := emits_alternative comp rest
    have termEmits : Emits (match quantifier with
        | none => compileAtom host comp atom
        | some quantifier => compileQuantified host comp atom quantifier
            (compileAtom host comp atom)) := by
      cases quantifier with
      | none => exact copyEmits
      | some quantifier => exact emits_quantified comp copyEmits quantifier
    simp only [compileAlternative]
    split
    · exact emits_append restEmits termEmits
    · exact emits_append termEmits restEmits

theorem emits_alternatives (comp : Compiler) (disjunction : Disjunction) :
    ∀ emit ∈ compileAlternatives host comp disjunction, Emits emit := by
  cases disjunction with
  | nil => exact forall_mem_nil _
  | cons first rest =>
    rw [compileAlternatives, forall_mem_cons]
    exact ⟨emits_alternative comp first, emits_alternatives comp rest⟩

end

theorem emits_disjunction (comp : Compiler) (disjunction : Disjunction) :
    Emits (compileDisjunction host comp disjunction) :=
  emits_join _ _ (emits_alternatives _ _)

theorem two_le_register_count (host : Platform) (pattern : Pattern) :
    2 ≤ (compile host pattern).registerCount :=
  (Nat.le_add_right 2 _).trans ((emits_disjunction _ pattern.disjunction).keeps 1 _)

/-- A compiled pattern closes the brackets it opens and never jumps across one. -/
theorem compile_nested (host : Platform) (pattern : Pattern) :
    Nested (compile host pattern).instructions 0 (compile host pattern).instructions.length := by
  have front : Emits (Emit.append (Emit.one (.save 0))
      (Emit.append (compileDisjunction host (Compiler.new pattern) pattern.disjunction)
        (Emit.one (.save 1)))) :=
    emits_append (emits_one rfl rfl) (emits_append (emits_disjunction _ _) (emits_one rfl rfl))
  set code := (Emit.append (Emit.one (.save 0))
    (Emit.append (compileDisjunction host (Compiler.new pattern) pattern.disjunction)
      (Emit.one (.save 1))) 0 (2 + pattern.captureCount * 2)).1 with codeIs
  have whole : (compile host pattern).instructions = code ++ [.accept] := by
    simp [compile, compilePattern, codeIs, Emit.append, Emit.one]
  have placed : Placed (compile host pattern).instructions 0 (code ++ [.accept]) := by
    rw [← whole]
    exact placed_self
  have frontNested := front.nests _ 0 _ placed.left
  have acceptFound := placed.right.head
  rw [← codeIs] at frontNested
  rw [Nat.zero_add] at frontNested acceptFound
  have last : (compile host pattern).instructions.length = code.length + 1 := by
    rw [whole, length_append, length_singleton]
  rw [last]
  apply frontNested.trans
  refine ⟨enclosing_succ acceptFound, ?_⟩
  intro pc insn after before found
  obtain rfl : pc = code.length := by omega
  cases found.symm.trans acceptFound
  exact ⟨forall_mem_nil _, frontNested.closed⟩

end
end Ladybone.Regex.Nesting
