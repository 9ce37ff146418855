import Ladybone.Support.Bracketing

/-!
# Structured control instructions

The instructions of a function body as the parser leaves them: a flat list in which `block`,
`loop` and `if` carry the positions behind their `else` and of their `end`. All instructions
that do not touch labels are opaque operations.
-/

namespace Ladybone.Wasm.Control

open Support.Bracketing List Option

structure FunctionType (Ty : Type) where
  (parameters results : List Ty)
deriving DecidableEq

inductive BlockType (Ty : Type) where
  | empty
  | type (type : Ty)
  | index (index : Nat)
deriving DecidableEq

/-- `StructuredInstructionArgs`: the parser fills in the positions, the validator the two
numbers of its `meta`. -/
structure StructuredArgs (Ty : Type) where
  blockType : BlockType Ty
  endIp : Nat := 0
  elseIp : Option Nat := none
  arity : Nat := 0
  parameterCount : Nat := 0
deriving DecidableEq

inductive Instruction (Ty Op : Type) where
  | block (args : StructuredArgs Ty)
  | loop (args : StructuredArgs Ty)
  | if_ (args : StructuredArgs Ty)
  | structuredElse
  | structuredEnd
  | br (label : Nat) (hasStackAdjustment : Bool)
  | brIf (label : Nat) (hasStackAdjustment : Bool)
  | brTable (labels : List Nat) (default_ : Nat)
  | return_
  | unreachable
  | call (function : Nat)
  | callIndirect (type : Nat) (addressType : Ty)
  | returnCall (function : Nat)
  | returnCallIndirect (type : Nat) (addressType : Ty)
  | other (op : Op)
  | endExpression
deriving DecidableEq

namespace Instruction

variable {Ty Op : Type}

def mark : Instruction Ty Op → Mark
  | block _ => .opens
  | loop _ => .opens
  | if_ _ => .opens
  | structuredEnd => .closes
  | _ => .plain

def args : Instruction Ty Op → Option (StructuredArgs Ty)
  | block args => some args
  | loop args => some args
  | if_ args => some args
  | _ => none

variable (patch : StructuredArgs Ty → StructuredArgs Ty)

def mapArgs : Instruction Ty Op → Instruction Ty Op
  | block args => block (patch args)
  | loop args => loop (patch args)
  | if_ args => if_ (patch args)
  | instruction => instruction

end Instruction

/-! ## Parsing -/

section
variable {Ty Op : Type}

def patchEnd (ip : Nat) (args : StructuredArgs Ty) : StructuredArgs Ty :=
  { args with endIp := ip + if args.elseIp.isSome then 1 else 0 }

def patchElse (ip : Nat) (args : StructuredArgs Ty) : StructuredArgs Ty :=
  { args with elseIp := some (ip + 1) }

/-- The loop of `Expression::parse`, with the positions of the open constructs and the
instructions so far. -/
def parseLoop : List (Instruction Ty Op) → List Nat → List (Instruction Ty Op) →
    Option (List (Instruction Ty Op))
  | [], _, _ => none
  | instruction :: stream, stack, instructions =>
    let ip := instructions.length
    match instruction, stack with
    | .block args, stack => parseLoop stream (ip :: stack) (instructions ++ [.block args])
    | .loop args, stack => parseLoop stream (ip :: stack) (instructions ++ [.loop args])
    | .if_ args, stack => parseLoop stream (ip :: stack) (instructions ++ [.if_ args])
    | .structuredEnd, [] => some (instructions ++ [.endExpression])
    | .structuredEnd, entry :: stack =>
      parseLoop stream stack
        (instructions.modify entry (Instruction.mapArgs (patchEnd ip)) ++ [.structuredEnd])
    | .structuredElse, [] => none
    | .structuredElse, entry :: stack =>
      parseLoop stream (entry :: stack)
        (instructions.modify entry (Instruction.mapArgs (patchElse ip)) ++ [.structuredElse])
    | instruction, stack => parseLoop stream stack (instructions ++ [instruction])

/-- Nothing is filled in yet, and the synthetic end is not an instruction of the stream. -/
def Instruction.isDecoded : Instruction Ty Op → Bool
  | .block args => args.elseIp.isNone
  | .loop args => args.elseIp.isNone
  | .if_ args => args.elseIp.isNone
  | .endExpression => false
  | _ => true

abbrev Decoded (Ty Op : Type) := { instruction : Instruction Ty Op // instruction.isDecoded = true }

def parse (stream : List (Decoded Ty Op)) : Option (List (Instruction Ty Op)) :=
  parseLoop (stream.map Subtype.val) [] []

end

/-! ## What the parser fills in -/

section
variable {Ty Op : Type} {patch : StructuredArgs Ty → StructuredArgs Ty}

def marks (code : List (Instruction Ty Op)) : List Mark := code.map Instruction.mark

def ElseOf (code : List (Instruction Ty Op)) (opener position : Nat) : Prop :=
  code[position]? = some .structuredElse ∧
    enclosing (marks code) position = opener :: enclosing (marks code) opener

structure ElsePatched (code : List (Instruction Ty Op)) (opener : Nat)
    (args : StructuredArgs Ty) : Prop where
  absent : args.elseIp = none → ∀ position, ¬ ElseOf code opener position
  present : ∀ ip, args.elseIp = some ip →
    ∃ position, ip = position + 1 ∧ ElseOf code opener position

/-- The recorded end is the closing `end`, or the place behind it when there is an `else`. -/
def EndPatched (code : List (Instruction Ty Op)) (opener : Nat) (args : StructuredArgs Ty) : Prop :=
  ∃ finish, Closes (marks code) opener finish ∧
    args.endIp = finish + if args.elseIp.isSome then 1 else 0

/-- The state of the parser: constructs that are closed have both positions. -/
structure Patched (stack : List Nat) (code : List (Instruction Ty Op)) : Prop where
  stack_eq : stack = enclosing (marks code) code.length
  else_patched : ∀ opener instruction args, code[opener]? = some instruction →
    instruction.args = some args → ElsePatched code opener args
  end_patched : ∀ opener instruction args, code[opener]? = some instruction →
    instruction.args = some args → opener ∉ stack → EndPatched code opener args
  not_synthetic : ∀ position : Nat, code[position]? ≠ some .endExpression

@[simp]
theorem mark_map_args {insn : Instruction Ty Op} : (insn.mapArgs patch).mark = insn.mark := by
  cases insn <;> rfl

theorem marks_modify {code : List (Instruction Ty Op)} {entry : Nat} :
    marks (code.modify entry (Instruction.mapArgs patch)) = marks code := by
  apply ext_getElem?
  intro pos
  rw [marks, marks, getElem?_map, getElem?_map, getElem?_modify]
  cases code[pos]? with
  | none => rfl
  | some =>
    simp only [Option.map_eq_map, Option.map_some]
    split
    · rw [mark_map_args]
    · rfl

theorem marks_append {code : List (Instruction Ty Op)} {insn : Instruction Ty Op} :
    marks (code ++ [insn]) = marks code ++ [insn.mark] := by
  rw [marks, map_append]
  rfl

theorem length_marks {code : List (Instruction Ty Op)} : (marks code).length = code.length :=
  length_map _

theorem args_map_args {insn : Instruction Ty Op} :
    (insn.mapArgs patch).args = insn.args.map patch := by
  cases insn <;> rfl

theorem map_args_id {insn : Instruction Ty Op} : insn.mapArgs id = insn := by
  cases insn <;> rfl

variable {insn : Instruction Ty Op} {stack : List Nat} {code : List (Instruction Ty Op)}
  {entry : Nat}

theorem map_args_eq_iff {other : Instruction Ty Op}
    (noArgs : other.args = none) : insn.mapArgs patch = other ↔ insn = other := by
  cases insn <;> cases other <;> simp_all [Instruction.mapArgs, Instruction.args]

structure Extends (code extended : List (Instruction Ty Op)) (instruction : Instruction Ty Op)
    (patch : Nat → StructuredArgs Ty → StructuredArgs Ty) : Prop where
  marks_eq : marks extended = marks code ++ [instruction.mark]
  last : extended[code.length]? = some instruction
  earlier : ∀ position later, position < code.length → extended[position]? = some later →
    ∃ before, code[position]? = some before ∧ later = before.mapArgs (patch position)

theorem extends_append (code : List (Instruction Ty Op)) (insn : Instruction Ty Op) :
    Extends code (code ++ [insn]) insn (fun _ => id) where
  marks_eq := marks_append
  last := getElem?_concat_length
  earlier := by
    intro pos later inside here
    rw [getElem?_append_left inside] at here
    exact ⟨later, here, map_args_id.symm⟩

theorem extends_modify (code : List (Instruction Ty Op)) (entry : Nat)
    (patch : StructuredArgs Ty → StructuredArgs Ty) (insn : Instruction Ty Op) :
    Extends code (code.modify entry (Instruction.mapArgs patch) ++ [insn]) insn
      (fun pos => if entry = pos then patch else id) where
  marks_eq := by rw [marks_append, marks_modify]
  last := by
    have size := length_modify (@Instruction.mapArgs Ty Op patch) code entry
    rw [← size]
    exact getElem?_concat_length
  earlier := by
    intro pos later inside here
    rw [getElem?_append_left (by rwa [length_modify]), getElem?_modify,
      Option.map_eq_map, Option.map_eq_some_iff] at here
    obtain ⟨before, there, rfl⟩ := here
    refine ⟨before, there, ?_⟩
    split
    · rfl
    · exact map_args_id.symm

namespace Extends

variable {code extended : List (Instruction Ty Op)} {insn : Instruction Ty Op}
  {patch : Nat → StructuredArgs Ty → StructuredArgs Ty}
  (extends_ : Extends code extended insn patch) {opener pos : Nat} {args : StructuredArgs Ty}

include extends_

theorem length_eq : extended.length = code.length + 1 := by
  have same := congrArg List.length extends_.marks_eq
  rwa [length_marks, length_append, length_marks] at same

theorem enclosing_eq (inside : pos ≤ code.length) :
    enclosing (marks extended) pos = enclosing (marks code) pos := by
  rw [extends_.marks_eq, enclosing, enclosing, take_append_of_le_length (by rwa [length_marks])]

theorem enclosing_last : enclosing (marks extended) (code.length + 1) =
    advance code.length insn.mark (enclosing (marks code) code.length) := by
  have here : (marks extended)[code.length]? = some insn.mark := by
    rw [marks, getElem?_map, extends_.last, map_some]
  rw [enclosing_succ here, extends_.enclosing_eq (Nat.le_refl _)]

theorem else_of_cases (belongs : ElseOf extended opener pos) :
    ElseOf code opener pos ∨ insn = .structuredElse ∧ pos = code.length ∧
        enclosing (marks code) code.length = opener :: enclosing (marks code) opener := by
  obtain ⟨isElse, around⟩ := belongs
  have inside : pos < code.length + 1 := by
    rw [← extends_.length_eq]
    exact (List.getElem?_eq_some_iff.mp isElse).1
  have before : opener < pos := by
    refine (enclosing_eq_cons ?_ around).1
    rw [length_marks, extends_.length_eq]
    omega
  rw [extends_.enclosing_eq (by omega), extends_.enclosing_eq (by omega)] at around
  rcases Nat.lt_succ_iff_lt_or_eq.mp inside with past | rfl
  · obtain ⟨before, there, same⟩ := extends_.earlier pos _ past isElse
    exact .inl ⟨by rw [there, (map_args_eq_iff rfl).mp same.symm], around⟩
  · refine .inr ⟨?_, rfl, around⟩
    rw [extends_.last] at isElse
    exact some.inj isElse

theorem else_of (belongs : ElseOf code opener pos) : ElseOf extended opener pos := by
  obtain ⟨isElse, around⟩ := belongs
  have inside := (List.getElem?_eq_some_iff.mp isElse).1
  have before : opener < pos := by
    refine (enclosing_eq_cons ?_ around).1
    rw [length_marks]
    omega
  have here := List.getElem?_eq_getElem (by rw [extends_.length_eq]; omega : pos < extended.length)
  obtain ⟨insn, there, same⟩ := extends_.earlier pos _ inside here
  rw [isElse, some.injEq] at there
  refine ⟨by rw [here, same, ← there, (map_args_eq_iff rfl).mpr rfl], ?_⟩
  rw [extends_.enclosing_eq (by omega), extends_.enclosing_eq (by omega), around]

theorem closes {finish : Nat} (closed : Closes (marks code) opener finish) :
    Closes (marks extended) opener finish := by
  obtain ⟨isEnd, around⟩ := closed
  have inside : finish < code.length := by
    rw [← length_marks]
    exact (List.getElem?_eq_some_iff.mp isEnd).1
  have before : opener < finish := by
    refine (enclosing_eq_cons ?_ around).1
    rw [length_marks]
    omega
  refine ⟨?_, ?_⟩
  · rw [extends_.marks_eq, getElem?_append_left (by rwa [length_marks]), isEnd]
  · rw [extends_.enclosing_eq (by omega), extends_.enclosing_eq (by omega), around]

theorem else_patched {later : StructuredArgs Ty}
    (notElse : insn ≠ .structuredElse) (same : later.elseIp = args.elseIp)
    (patched : ElsePatched code opener args) : ElsePatched extended opener later where
  absent := by
    intro none pos belongs
    rcases extends_.else_of_cases belongs with past | ⟨isElse, -⟩
    · exact patched.absent (same ▸ none) pos past
    · exact notElse isElse
  present := by
    intro ip some
    obtain ⟨pos, rfl, belongs⟩ := patched.present ip (same ▸ some)
    exact ⟨pos, rfl, extends_.else_of belongs⟩

theorem origin {later : Instruction Ty Op}
    (here : extended[opener]? = some later) (hasArgs : later.args = some args) :
    (∃ before old, code[opener]? = some before ∧ before.args = some old ∧ args = patch opener old) ∨
      opener = code.length ∧ insn.args = some args := by
  have inside := (List.getElem?_eq_some_iff.mp here).1
  rw [extends_.length_eq] at inside
  rcases Nat.lt_succ_iff_lt_or_eq.mp inside with past | rfl
  · obtain ⟨before, there, rfl⟩ := extends_.earlier opener later past here
    rw [args_map_args, map_eq_some_iff] at hasArgs
    obtain ⟨old, hadArgs, rfl⟩ := hasArgs
    exact .inl ⟨before, old, there, hadArgs, rfl⟩
  · rw [extends_.last, some.injEq] at here
    exact .inr ⟨rfl, here ▸ hasArgs⟩

theorem end_patched (patched : EndPatched code opener args) : EndPatched extended opener args := by
  obtain ⟨finish, closes, endIp⟩ := patched
  exact ⟨finish, extends_.closes closes, endIp⟩

theorem not_synthetic (new : insn ≠ .endExpression)
    (old : ∀ pos : Nat, code[pos]? ≠ some .endExpression) (pos : Nat) :
    extended[pos]? ≠ some .endExpression := by
  intro here
  have inside := (List.getElem?_eq_some_iff.mp here).1
  rw [extends_.length_eq] at inside
  rcases Nat.lt_succ_iff_lt_or_eq.mp inside with past | rfl
  · obtain ⟨before, there, same⟩ := extends_.earlier pos _ past here
    exact old pos (by rw [there, (map_args_eq_iff rfl).mp same.symm])
  · rw [extends_.last, some.injEq] at here
    exact new here

end Extends

section
variable {extended : List (Instruction Ty Op)} {patch : Nat → StructuredArgs Ty → StructuredArgs Ty}

/-- What is to be shown of one more instruction: the positions of the older constructs and
of the one it opens. -/
theorem Patched.extend {after : List Nat} (patched : Patched stack code)
    (extends_ : Extends code extended insn patch)
    (stackEq : after = advance code.length insn.mark stack) (notSynthetic : insn ≠ .endExpression)
    (elses : ∀ opener args, opener < code.length → ElsePatched code opener args →
      ElsePatched extended opener (patch opener args)) (opened : ∀ args, insn.args = some args →
      code.length ∈ after ∧ ElsePatched extended code.length args)
    (ends : ∀ opener args, opener < code.length → opener ∉ after →
      (opener ∉ stack → EndPatched code opener args) →
        EndPatched extended opener (patch opener args)) :
    Patched after extended := by
  refine ⟨?_, ?_, ?_, extends_.not_synthetic notSynthetic patched.not_synthetic⟩
  · rw [extends_.length_eq, extends_.enclosing_last, ← patched.stack_eq, stackEq]
  · intro opener later args here hasArgs
    rcases extends_.origin here hasArgs with ⟨before, old, there, hadArgs, rfl⟩ | ⟨rfl, new⟩
    · exact elses opener old (List.getElem?_eq_some_iff.mp there).1
        (patched.else_patched opener before old there hadArgs)
    · exact (opened args new).2
  · intro opener later args here hasArgs closed
    rcases extends_.origin here hasArgs with ⟨before, old, there, hadArgs, rfl⟩ | ⟨rfl, new⟩
    · exact ends opener old (List.getElem?_eq_some_iff.mp there).1 closed
        (patched.end_patched opener before old there hadArgs)
    · exact absurd (opened args new).1 closed

theorem Patched.innermost (patched : Patched (entry :: stack) code)
    (extends_ : Extends code extended insn patch) (inside : entry < code.length) :
    enclosing (marks extended) code.length = entry :: enclosing (marks extended) entry := by
  have around := (enclosing_eq_cons (Nat.le_of_eq length_marks.symm) patched.stack_eq.symm).2.2
  rw [extends_.enclosing_eq (Nat.le_refl _), extends_.enclosing_eq (Nat.le_of_lt inside),
    ← patched.stack_eq, around]

end

theorem Patched.plain (patched : Patched stack code) (noArgs : insn.args = none)
    (mark : insn.mark = .plain) (notElse : insn ≠ .structuredElse)
    (notSynthetic : insn ≠ .endExpression) : Patched stack (code ++ [insn]) := by
  have extends_ := extends_append code insn
  apply patched.extend extends_ (by rw [mark]; rfl) notSynthetic
  · exact fun _ _ _ => extends_.else_patched notElse rfl
  · intro args hasArgs
    rw [noArgs] at hasArgs
    cases hasArgs
  · intro opener args _ closed past
    exact extends_.end_patched (past closed)

theorem Patched.opens (patched : Patched stack code) (mark : insn.mark = .opens)
    (fresh : ∀ args, insn.args = some args → args.elseIp = none) :
    Patched (code.length :: stack) (code ++ [insn]) := by
  have extends_ := extends_append code insn
  have notElse : insn ≠ .structuredElse := by
    rintro rfl
    cases mark
  apply patched.extend extends_ (by rw [mark]; rfl)
  · rintro rfl
    cases mark
  · exact fun _ _ _ => extends_.else_patched notElse rfl
  · intro args hasArgs
    refine ⟨.head _, fun _ pos belongs => ?_, fun ip some => ?_⟩
    · -- an else that belongs to the new construct would have to stand behind it
      rcases extends_.else_of_cases belongs with ⟨isElse, around⟩ | ⟨isElse, -⟩
      · have inside := (List.getElem?_eq_some_iff.mp isElse).1
        have before := (enclosing_eq_cons (by rw [length_marks]; omega) around).1
        omega
      · exact notElse isElse
    · rw [fresh args hasArgs] at some
      cases some
  · intro opener args _ closed past
    exact extends_.end_patched (past fun mem => closed (.tail _ mem))

theorem Patched.else_ (patched : Patched (entry :: stack) code) : Patched (entry :: stack)
      (code.modify entry (Instruction.mapArgs (patchElse code.length)) ++ [.structuredElse]) := by
  have extends_ := extends_modify code entry (patchElse code.length)
    (.structuredElse : Instruction Ty Op)
  apply patched.extend extends_ rfl (by simp)
  · intro opener args inside past
    by_cases own : entry = opener
    · subst own
      rw [if_pos rfl]
      refine ⟨fun none => (by cases none), fun ip some => ?_⟩
      have recorded : code.length + 1 = ip := Option.some.inj some
      exact ⟨code.length, recorded.symm, extends_.last, patched.innermost extends_ inside⟩
    · rw [if_neg own]
      refine ⟨fun none pos belongs => ?_, fun ip some => ?_⟩
      · rcases extends_.else_of_cases belongs with earlierElse | ⟨-, -, opened⟩
        · exact past.absent none pos earlierElse
        · rw [← patched.stack_eq] at opened
          exact own (List.cons.inj opened).1
      · obtain ⟨pos, rfl, belongs⟩ := past.present ip some
        exact ⟨pos, rfl, extends_.else_of belongs⟩
  · rintro _ ⟨⟩
  · intro opener args _ closed past
    have own : entry ≠ opener := fun own => closed (own ▸ .head _)
    rw [if_neg own]
    exact extends_.end_patched (past closed)

theorem Patched.end_ (patched : Patched (entry :: stack) code) :
    Patched stack
      (code.modify entry (Instruction.mapArgs (patchEnd code.length)) ++ [.structuredEnd]) := by
  have extends_ := extends_modify code entry (patchEnd code.length)
    (.structuredEnd : Instruction Ty Op)
  apply patched.extend extends_ rfl (by simp)
  · intro opener args _
    apply extends_.else_patched (by simp)
    split <;> rfl
  · rintro _ ⟨⟩
  · intro opener args inside closed past
    by_cases own : entry = opener
    · subst own
      refine ⟨code.length, ⟨?_, patched.innermost extends_ inside⟩, ?_⟩
      · rw [marks, getElem?_map, extends_.last]
        rfl
      · rw [if_pos rfl]
        rfl
    · rw [if_neg own]
      apply extends_.end_patched (past fun mem => ?_)
      exact (mem_cons.mp mem).elim (fun same => own same.symm) closed

theorem parse_loop_patched {stream : List (Instruction Ty Op)}
    (decoded : ∀ insn ∈ stream, insn.isDecoded = true) (stack : List Nat)
    (insns code : List (Instruction Ty Op)) (patched : Patched stack insns)
    (parsed : parseLoop stream stack insns = some code) :
    ∃ body, code = body ++ [.endExpression] ∧ Patched [] body := by
  induction stream generalizing stack insns with
  | nil => cases parsed
  | cons insn _ ih =>
    obtain ⟨here, later⟩ := forall_mem_cons.mp decoded
    cases insn with
    | block | loop | if_ =>
      refine ih later _ _ (patched.opens rfl ?_) parsed
      rintro _ ⟨⟩
      exact isNone_iff_eq_none.mp here
    | structuredElse =>
      cases stack with
      | nil => cases parsed
      | cons => exact ih later _ _ patched.else_ parsed
    | structuredEnd =>
      cases stack with
      | nil => exact ⟨insns, (some.inj parsed).symm, patched⟩
      | cons => exact ih later _ _ patched.end_ parsed
    | endExpression => cases here
    | _ => exact ih later _ _ (patched.plain rfl rfl (by simp) (by simp)) parsed

theorem parse_patched {stream : List (Decoded Ty Op)} (parsed : parse stream = some code) :
    ∃ body, code = body ++ [.endExpression] ∧ Patched [] body := by
  refine parse_loop_patched ?_ [] [] code ⟨rfl, by simp, by simp, by simp⟩ parsed
  intro insn mem
  obtain ⟨decoded, -, rfl⟩ := mem_map.mp mem
  exact decoded.2

end
end Ladybone.Wasm.Control
