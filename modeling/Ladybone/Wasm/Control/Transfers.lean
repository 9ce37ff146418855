import Ladybone.Wasm.Control.Labels

/-!
# Transfers of control

Where each kind of transfer in an accepted body leads, in the validator's terms: falling through
to the next instruction, opening and closing a construct, both ways into an `if`, and a branch to
the label of a construct or of the function. A position is `Placed` with a number of values when
the validator's stack there has that height above the base of the call; at an `end` the code
before it may be unreachable, and then the values are the results of the construct.
-/

namespace Ladybone.Wasm.Control

open Support.Bracketing List Option WasmFunction

variable {Ty Op : Type} [DecidableEq Ty] {function : WasmFunction Ty Op}

structure Placed (body : Body function) (base ip height : Nat) : Prop where
  inside : ip ≤ body.inner.length
  outer : ∀ frame ∈ (body.state ip).frames.tail, frame.unreachable = false
  fits : ∀ frame rest, (body.state ip).frames = frame :: rest →
    frame.unreachable = false ∧ height = base + (body.state ip).stack.length ∨
      (body.parsed[ip]? = some .structuredEnd ∨ body.parsed[ip]? = some .endExpression) ∧
        height = base + frame.initialSize + frame.type.results.length

/-- What an instruction other than an `end` finds. -/
structure Live (body : Body function) (base ip height : Nat) (frame : Frame Ty)
    (outer : List (Frame Ty)) : Prop where
  inside : ip + 1 ≤ body.inner.length
  frames : (body.state ip).frames = frame :: outer
  reachable : frame.unreachable = false
  outer_reachable : ∀ other ∈ outer, other.unreachable = false
  height_eq : height = base + (body.state ip).stack.length

variable {body : Body function} {base ip height : Nat} {frame : Frame Ty} {outer : List (Frame Ty)}
  {insn : Instruction Ty Op} (placed : Placed body base ip height)

theorem Body.succ_inside (inside : ip ≤ body.inner.length)
    (parsedHere : body.parsed[ip]? = some insn) (notLast : insn ≠ .endExpression) :
    ip + 1 ≤ body.inner.length := by
  rcases Nat.lt_or_eq_of_le inside with earlier | rfl
  · exact earlier
  · rw [body.extends_inner.last, some.injEq] at parsedHere
    exact absurd parsedHere.symm notLast

include placed in
theorem Placed.live (parsedHere : body.parsed[ip]? = some insn)
    (frames : (body.state ip).frames = frame :: outer)
    (notEnd : insn ≠ .structuredEnd ∧ insn ≠ .endExpression) :
    Live body base ip height frame outer := by
  have outerReachable := placed.outer
  rw [frames] at outerReachable
  rcases placed.fits frame outer frames with ⟨reachable, height⟩ | ⟨isEnd, -⟩
  · exact ⟨body.succ_inside placed.inside parsedHere notEnd.2, frames, reachable, outerReachable,
      height⟩
  · rw [parsedHere, some.injEq, some.injEq] at isEnd
    exact absurd isEnd (not_or.mpr notEnd)

include placed in
theorem Placed.within : ip ≤ body.inner.length + 1 :=
  Nat.le_succ_of_le placed.inside

theorem Placed.of_frames (inside : ip ≤ body.inner.length)
    (frames : (body.state ip).frames = frame :: outer) (reachable : frame.unreachable = false)
    (outerReachable : ∀ other ∈ outer, other.unreachable = false)
    (heightEq : height = base + (body.state ip).stack.length) : Placed body base ip height where
  inside := inside
  outer := by
    rwa [frames]
  fits := by
    intro other rest same
    rw [frames] at same
    obtain ⟨rfl, -⟩ := List.cons.inj same
    exact .inl ⟨reachable, heightEq⟩

section
variable (live : Live body base ip height frame outer)

include live

theorem Live.replaces {pops pushes : Nat}
    (replaces : Replaces frame (body.state ip).stack (body.state (ip + 1)) outer pops pushes) :
    ∃ rest, height = rest + pops ∧ Placed body base (ip + 1) (rest + pushes) := by
  obtain ⟨rest, -, before, behind⟩ := replaces.heights live.reachable
  refine ⟨base + rest, ?_, Placed.of_frames live.inside replaces.frames live.reachable
    live.outer_reachable ?_⟩
  · rw [live.height_eq, before, Nat.add_assoc]
  · rw [behind, Nat.add_assoc]

variable {kind : FrameKind} {conditions init : Nat} {args filled : StructuredArgs Ty}
  {type : FunctionType Ty}
  (enters : Enters body.context kind conditions frame (body.state ip).stack (body.state (ip + 1))
    outer args filled type init)

include enters

theorem Live.opens_height : height = base + init + filled.parameterCount + conditions := by
  rw [live.height_eq, enters.before live.reachable, enters.filled]
  dsimp only
  omega

theorem Live.opens : Placed body base (ip + 1) (base + init + filled.parameterCount) := by
  refine Placed.of_frames live.inside enters.frames rfl ?_ ?_
  · exact forall_mem_cons.mpr ⟨live.reachable, live.outer_reachable⟩
  · rw [enters.height, enters.filled, Nat.add_assoc]

end

theorem Body.label_enters {kind : FrameKind} {conditions init : Nat}
    {stack : List (StackEntry Ty)} {args filled : StructuredArgs Ty} {type : FunctionType Ty}
    (enters : Enters body.context kind conditions frame stack (body.state (ip + 1)) outer args
      filled type init) : body.label base ip =
      ⟨if kind = .loop then filled.parameterCount else filled.arity, function.target ip,
        base + init⟩ := by
  unfold Body.label
  rw [enters.frames, enters.filled]
  by_cases isLoop : kind = .loop
  all_goals simp [Frame.labels, isLoop]

/-! ## The parts of a construct -/

variable {opener pos : Nat}

theorem Body.instruction_inside (parsedHere : body.parsed[pos]? = some insn)
    (around : enclosing (marks body.parsed) pos = opener :: enclosing (marks body.parsed) opener) :
    ∃ inner filled, pos ≤ body.inner.length ∧ function.code[pos]? = some filled ∧
      (body.state pos).frames = inner :: (body.state opener).frames ∧
      Opened body.parsed body.state opener inner ∧
      Spec body.context inner (body.state opener).frames (body.state pos).stack
        (body.state (pos + 1)) insn filled := by
  have inside := (List.getElem?_eq_some_iff.mp parsedHere).1
  rw [body.length_parsed] at inside
  have codeHere := List.getElem?_eq_getElem (by rwa [body.length_code] : pos < function.code.length)
  have tracks := (body.sound (Nat.le_of_lt inside)).1
  rw [openers, body.marks_code, around] at tracks
  obtain ⟨inner, frames, opened⟩ := tracks.at_opener getElem?_cons_zero
  obtain ⟨_, _, _, sameParsed, sameFrames, spec⟩ := body.parsed_at codeHere
  rw [parsedHere] at sameParsed
  cases sameParsed
  rw [drop_zero] at frames
  rw [frames] at sameFrames
  obtain ⟨rfl, rfl⟩ := List.cons.inj sameFrames
  exact ⟨inner, _, Nat.le_of_lt_succ inside, codeHere, frames, opened, spec⟩

theorem Body.else_at (belongs : ElseOf body.parsed opener pos) :
    ∃ inner, pos + 1 ≤ body.inner.length ∧ Opened body.parsed body.state opener inner ∧
      Elses inner (body.state pos).stack (body.state (pos + 1)) (body.state opener).frames := by
  obtain ⟨inner, _, inside, -, -, opened, spec⟩ :=
    body.instruction_inside belongs.1 belongs.2
  exact ⟨inner, body.succ_inside inside belongs.1 (by simp), opened, spec.2⟩

/-- The `end` of a construct. -/
structure Closing (body : Body function) (opener finish : Nat) (inner : Frame Ty) : Prop where
  inside : finish + 1 ≤ body.inner.length
  is_end : body.parsed[finish]? = some .structuredEnd
  frames : (body.state finish).frames = inner :: (body.state opener).frames
  opened : Opened body.parsed body.state opener inner
  ends : Ends inner (body.state finish).stack (body.state (finish + 1)) (body.state opener).frames
  openers_at : function.openers finish = opener :: function.openers opener
  openers_behind : function.openers (finish + 1) = function.openers opener

theorem Body.closing {finish : Nat} (closes : Closes (marks body.parsed) opener finish) :
    ∃ inner, Closing body opener finish inner := by
  obtain ⟨isEnd, around⟩ := closes
  rw [marks, List.getElem?_map, map_eq_some_iff] at isEnd
  obtain ⟨insn, isEnd, mark⟩ := isEnd
  have instructionEq : insn = .structuredEnd := by
    cases insn <;> first | rfl | cases mark
  subst instructionEq
  obtain ⟨inner, _, inside, codeHere, frames, opened, spec⟩ :=
    body.instruction_inside isEnd around
  have openersAt : function.openers finish = opener :: function.openers opener := by
    rw [openers, openers, body.marks_code, around]
  refine ⟨inner, body.succ_inside inside isEnd (by simp), isEnd, frames, opened, spec.2,
    openersAt, ?_⟩
  rw [openers_succ codeHere, spec.mark_eq, openersAt]
  rfl

/-- What stands at the opening of a construct. -/
structure Construct (body : Body function) (opener : Nat) (kind : FrameKind)
    (args filled : StructuredArgs Ty) (type : FunctionType Ty) (initial : Nat) : Prop where
  parsed_at : ∃ instruction, body.parsed[opener]? = some instruction ∧ instruction.args = some args
  enters : ∃ conditions frame outer, (body.state opener).frames = frame :: outer ∧
    Enters body.context kind conditions frame (body.state opener).stack (body.state (opener + 1))
      outer args filled type initial
  target_eq : function.target opener = if kind = .loop then opener + 1 else args.endIp
  is_if : kind = .if_ → function.code[opener]? = some (.if_ filled)

theorem Body.construct_cases (opens : (marks function.code)[opener]? = some .opens) :
    ∃ args filled type init,
      Construct body opener .block args filled type init ∧
          function.code[opener]? = some (.block filled) ∨
        Construct body opener .loop args filled type init ∧
          function.code[opener]? = some (.loop filled) ∨
        Construct body opener .if_ args filled type init ∧
          function.code[opener]? = some (.if_ filled) := by
  rw [marks, getElem?_map, map_eq_some_iff] at opens
  obtain ⟨filled, codeHere, mark⟩ := opens
  obtain ⟨insn, frame, outer, parsedHere, frames, spec⟩ := body.parsed_at codeHere
  rw [spec.mark_eq] at mark
  cases insn with
  | block args =>
    obtain ⟨filled, type, init, rfl, enters⟩ := spec
    refine ⟨args, filled, type, init, .inl ⟨⟨⟨_, parsedHere, rfl⟩,
      ⟨_, _, _, frames, enters⟩, ?_, by simp⟩, codeHere⟩⟩
    rw [target, codeHere, enters.filled]
    rfl
  | loop args =>
    obtain ⟨filled, type, init, rfl, enters⟩ := spec
    refine ⟨args, filled, type, init, .inr (.inl ⟨⟨⟨_, parsedHere, rfl⟩,
      ⟨_, _, _, frames, enters⟩, ?_, by simp⟩, codeHere⟩)⟩
    rw [target, codeHere]
    rfl
  | if_ args =>
    obtain ⟨filled, type, init, rfl, enters⟩ := spec
    refine ⟨args, filled, type, init, .inr (.inr ⟨⟨⟨_, parsedHere, rfl⟩,
      ⟨_, _, _, frames, enters⟩, ?_, fun _ => codeHere⟩, codeHere⟩)⟩
    rw [target, codeHere, enters.filled]
    rfl
  | _ => cases mark

theorem Body.construct (opens : (marks function.code)[opener]? = some .opens) :
    ∃ kind args filled type init, Construct body opener kind args filled type init := by
  obtain ⟨args, filled, type, init, ⟨construct, -⟩ | ⟨construct, -⟩ | ⟨construct, -⟩⟩ :=
    body.construct_cases opens
  all_goals exact ⟨_, args, filled, type, init, construct⟩

theorem Body.opener_opens {index : Nat} (inside : ip ≤ body.inner.length + 1)
    (found : (function.openers ip)[index]? = some opener) :
    (marks function.code)[opener]? = some .opens := by
  have split := Body.openers_drop inside found
  have whole := (take_append_drop index (function.openers ip)).symm
  rw [split] at whole
  exact (enclosing_eq_append (by rwa [length_marks, body.length_code]) whole).2.1

section
variable {opener : Nat} {kind : FrameKind} {args filled : StructuredArgs Ty}
  {type : FunctionType Ty} {init : Nat}
  (construct : Construct body opener kind args filled type init)

include construct

theorem Construct.else_patched : ElsePatched body.parsed opener args := by
  obtain ⟨insn, parsedHere, hasArgs⟩ := construct.parsed_at
  exact body.else_patched parsedHere hasArgs

theorem Construct.inside : opener + 1 ≤ body.inner.length := by
  obtain ⟨insn, parsedHere, hasArgs⟩ := construct.parsed_at
  have within := (List.getElem?_eq_some_iff.mp parsedHere).1
  rw [body.length_parsed] at within
  refine body.succ_inside (Nat.le_of_lt_succ within) parsedHere ?_
  rintro rfl
  cases hasArgs

theorem Construct.opened {inner : Frame Ty} (opened : Opened body.parsed body.state opener inner) :
    inner.type = type ∧ inner.initialSize = init ∧
      (inner.kind = kind ∨ kind = .if_ ∧ inner.kind = .else_ ∧ args.elseIp ≠ none) := by
  obtain ⟨original, frames, -, sameType, sameSize, sameKind⟩ := opened.first
  obtain ⟨_, _, _, -, enters⟩ := construct.enters
  rw [enters.frames] at frames
  obtain ⟨rfl, -⟩ := List.cons.inj frames
  refine ⟨sameType, sameSize, sameKind.imp_right fun ⟨isIf, isElse, pos, belongs⟩ =>
    ⟨isIf, isElse, fun noElse => ?_⟩⟩
  exact construct.else_patched.absent noElse pos belongs

theorem Construct.label_eq : body.label base opener =
    ⟨if kind = .loop then type.parameters.length else type.results.length,
      function.target opener, base + init⟩ := by
  obtain ⟨_, _, _, -, enters⟩ := construct.enters
  rw [Body.label_enters enters, enters.filled]

theorem Construct.no_else (notIf : kind ≠ .if_) : args.elseIp = none := by
  cases elseIp : args.elseIp with
  | none => rfl
  | some ip =>
    obtain ⟨pos, -, belongs⟩ := construct.else_patched.present ip elseIp
    obtain ⟨inner, -, opened, elses⟩ := body.else_at belongs
    rcases (construct.opened opened).2.2 with same | ⟨isIf, -⟩
    · exact absurd (same.symm.trans elses.kind) notIf
    · exact absurd isIf notIf

theorem Construct.closing_of_no_else (noElse : args.elseIp = none) :
    ∃ inner, Closing body opener args.endIp inner := by
  obtain ⟨insn, parsedHere, hasArgs⟩ := construct.parsed_at
  obtain ⟨finish, closes, endIp⟩ := body.end_patched parsedHere hasArgs
  rw [noElse] at endIp
  obtain rfl : args.endIp = finish := endIp
  exact body.closing closes

theorem Construct.closing_of_else (hasElse : args.elseIp ≠ none) :
    ∃ finish inner, args.endIp = finish + 1 ∧ Closing body opener finish inner := by
  obtain ⟨insn, parsedHere, hasArgs⟩ := construct.parsed_at
  obtain ⟨finish, closes, endIp⟩ := body.end_patched parsedHere hasArgs
  rw [if_pos (isSome_iff_ne_none.mpr hasElse)] at endIp
  obtain ⟨inner, closing⟩ := body.closing closes
  exact ⟨finish, inner, endIp, closing⟩

end

section
variable {opener finish : Nat} {inner : Frame Ty} (closing : Closing body opener finish inner)
  (outerReachable : ∀ other ∈ (body.state opener).frames, other.unreachable = false)

include closing outerReachable

theorem Closing.placed_behind :
    Placed body base (finish + 1) (base + inner.initialSize + inner.type.results.length) := by
  cases around : (body.state opener).frames with
  | nil =>
    have tracks := (body.sound (Nat.le_succ_of_le closing.inside)).1
    have sizes := tracks.length_eq
    rw [closing.ends.frames, around] at sizes
    cases sizes
  | cons first =>
    rw [around] at outerReachable
    refine Placed.of_frames closing.inside (closing.ends.frames.trans around)
      (outerReachable first mem_cons_self) ?_ ?_
    · intro other mem
      exact outerReachable other (mem_cons_of_mem first mem)
    · rw [closing.ends.height, Nat.add_assoc]

theorem Closing.placed_at :
    Placed body base finish (base + inner.initialSize + inner.type.results.length) where
  inside := Nat.le_of_succ_le closing.inside
  outer := by
    rwa [closing.frames]
  fits := by
    intro other rest same
    rw [closing.frames] at same
    obtain ⟨rfl, -⟩ := List.cons.inj same
    exact .inr ⟨.inl closing.is_end, rfl⟩

end

/-! ## Branches -/

section
variable {opener : Nat}

/-- A branch to a construct that is no `if` with `else` leads to where its label still counts. -/
theorem Body.placed_target (opens : (marks function.code)[opener]? = some .opens)
    (outerReachable : ∀ other ∈ (body.state opener).frames, other.unreachable = false)
    (notElse : ∀ args, function.code[opener]? = some (.if_ args) → args.elseIp = none) :
    function.openers (function.target opener) = opener :: function.openers opener ∧
      Placed body base (function.target opener)
        ((body.label base opener).stackHeight + (body.label base opener).arity) := by
  obtain ⟨kind, args, filled, type, init, construct⟩ := body.construct opens
  obtain ⟨conditions, frame, outer, frames, enters⟩ := construct.enters
  rw [construct.label_eq, construct.target_eq]
  by_cases isLoop : kind = .loop
  · -- back to the first instruction of the loop
    rw [if_pos isLoop, if_pos isLoop]
    refine ⟨enclosing_succ opens, Placed.of_frames construct.inside enters.frames rfl
      (frames ▸ outerReachable) ?_⟩
    rw [enters.height, Nat.add_assoc]
  · rw [if_neg isLoop, if_neg isLoop]
    have noElse : args.elseIp = none := by
      by_cases isIf : kind = .if_
      · have := notElse filled (construct.is_if isIf)
        rwa [enters.filled] at this
      · exact construct.no_else isIf
    obtain ⟨inner, closing⟩ := construct.closing_of_no_else noElse
    obtain ⟨sameType, sameSize, -⟩ := construct.opened closing.opened
    refine ⟨closing.openers_at, ?_⟩
    rw [← sameType, ← sameSize]
    exact closing.placed_at outerReachable

theorem Body.placed_last : Placed body base (function.code.length - 1)
    (base + function.type.results.length) := by
  have last : function.code.length - 1 = body.inner.length := by
    rw [body.length_code]
    rfl
  have tracks := (body.sound (Nat.le_succ body.inner.length)).1
  rw [body.openers_last] at tracks
  obtain ⟨frame, frames, isType, -, size⟩ := tracks
  rw [last]
  refine ⟨Nat.le_refl _, ?_, ?_⟩
  · rw [frames]
    exact forall_mem_nil _
  · intro other rest same
    rw [frames] at same
    obtain ⟨rfl, -⟩ := List.cons.inj same
    exact .inr ⟨.inr body.extends_inner.last, by rw [size, isType]; rfl⟩

end

/-! ## `if`, `else` and `end` -/

section
variable {args filled : StructuredArgs Ty} {type : FunctionType Ty} {init : Nat}
  (live : Live body base ip height frame outer)

include live

theorem Live.all_reachable : ∀ other ∈ (body.state ip).frames, other.unreachable = false := by
  rw [live.frames]
  exact forall_mem_cons.mpr ⟨live.reachable, live.outer_reachable⟩

variable (construct : Construct body ip .if_ args filled type init)

include construct

theorem Live.if_else {behind : Nat} (elseIp : args.elseIp = some behind) :
    function.openers behind = ip :: function.openers ip ∧
      Placed body base behind (base + init + type.parameters.length) := by
  obtain ⟨pos, rfl, belongs⟩ := construct.else_patched.present behind elseIp
  obtain ⟨inner, inside, opened, elses⟩ := body.else_at belongs
  obtain ⟨sameType, sameSize, -⟩ := construct.opened opened
  obtain ⟨isElse, around⟩ := belongs
  have marked : (marks function.code)[pos]? = some .plain := by
    rw [body.marks_code, marks, List.getElem?_map, isElse]
    rfl
  refine ⟨?_, Placed.of_frames inside elses.frames rfl live.all_reachable ?_⟩
  · rwa [openers, enclosing_succ marked, openers, body.marks_code]
  · rw [elses.height, sameType, sameSize, Nat.add_assoc]

/-- The condition is false and there is no `else`: the parameters are the results. -/
theorem Live.if_skipped (noElse : args.elseIp = none) :
    function.openers (args.endIp + 1) = function.openers ip ∧
      Placed body base (args.endIp + 1) (base + init + type.parameters.length) := by
  obtain ⟨inner, closing⟩ := construct.closing_of_no_else noElse
  obtain ⟨sameType, sameSize, sameKind⟩ := construct.opened closing.opened
  refine ⟨closing.openers_behind, ?_⟩
  have isIf : inner.kind = .if_ := by
    rcases sameKind with same | ⟨-, -, hasElse⟩
    · exact same
    · exact absurd noElse hasElse
  have placed : Placed body base (args.endIp + 1) _ := closing.placed_behind live.all_reachable
  rwa [← closing.ends.without_else isIf, sameType, sameSize] at placed

end

/-- The first branch of an `if` runs into its `else`. -/
theorem Live.elses (live : Live body base ip height frame outer)
    (parsedHere : body.parsed[ip]? = some .structuredElse)
    (elses : Elses frame (body.state ip).stack (body.state (ip + 1)) outer) :
    ∃ opener, function.openers ip = opener :: function.openers opener ∧
      function.openers (function.target opener) = function.openers opener ∧
      Placed body base (function.target opener) height := by
  have inside : ip ≤ body.inner.length + 1 := Nat.le_of_succ_le (Nat.le_succ_of_le live.inside)
  have tracks := (body.sound inside).1
  rw [live.frames] at tracks
  cases opened : function.openers ip with
  | nil =>
    rw [opened] at tracks
    obtain ⟨_, same, -, kind, -⟩ := tracks
    obtain ⟨rfl, -⟩ := List.cons.inj same
    rw [elses.kind] at kind
    cases kind
  | cons opener =>
    have found : (function.openers ip)[0]? = some opener := by
      rw [opened]
      rfl
    have isAround := Body.openers_drop inside found
    rw [opened] at isAround tracks
    obtain ⟨_, same, isOpened, -⟩ := tracks
    obtain ⟨rfl, rfl⟩ := List.cons.inj same
    obtain ⟨kind, args, filled, type, init, construct⟩ :=
      body.construct (Body.opener_opens inside found)
    obtain ⟨sameType, sameSize, sameKind⟩ := construct.opened isOpened
    obtain rfl : kind = .if_ := by
      rcases sameKind with same | ⟨isIf, -⟩
      · exact same.symm.trans elses.kind
      · exact isIf
    have belongs : ElseOf body.parsed opener ip := by
      refine ⟨parsedHere, ?_⟩
      rw [← body.marks_code]
      exact opened.trans isAround
    have hasElse : args.elseIp ≠ none := fun noElse =>
      construct.else_patched.absent noElse ip belongs
    obtain ⟨finish, inner, endIp, closing⟩ := construct.closing_of_else hasElse
    obtain ⟨innerType, innerSize, -⟩ := construct.opened closing.opened
    have target : function.target opener = finish + 1 := construct.target_eq.trans endIp
    have placed : Placed body base (finish + 1) _ := closing.placed_behind live.outer_reachable
    refine ⟨opener, isAround, by rw [target, closing.openers_behind], ?_⟩
    rwa [target, live.height_eq, elses.before live.reachable, sameType, sameSize, ← innerType,
      ← innerSize, ← Nat.add_assoc]

include placed in
theorem Placed.ends (parsedHere : body.parsed[ip]? = some .structuredEnd)
    (frames : (body.state ip).frames = frame :: outer)
    (ends : Ends frame (body.state ip).stack (body.state (ip + 1)) outer) :
    (∃ opener, function.openers ip = opener :: function.openers (ip + 1)) ∧
      Placed body base (ip + 1) height := by
  have inside := body.succ_inside placed.inside parsedHere (by simp)
  have tracks := (body.sound (Nat.le_succ_of_le placed.inside)).1
  have tracksBehind := (body.sound (Nat.le_succ_of_le inside)).1
  have marked : (marks function.code)[ip]? = some .closes := by
    rw [body.marks_code, marks, getElem?_map, parsedHere]
    rfl
  have behind : function.openers (ip + 1) = (function.openers ip).tail := enclosing_succ marked
  have sizes := tracks.length_eq
  have sizesBehind := tracksBehind.length_eq
  rw [ends.frames, behind] at sizesBehind
  rw [frames, length_cons] at sizes
  have heightEq : height = base + (frame.initialSize + frame.type.results.length) := by
    rcases placed.fits frame outer frames with ⟨reachable, height⟩ | ⟨-, height⟩
    · rw [height, ends.before reachable]
    · rw [height, Nat.add_assoc]
  have outerReachable := placed.outer
  rw [frames] at outerReachable
  refine ⟨?_, ?_⟩
  · rw [behind]
    cases opened : function.openers ip with
    | nil =>
      rw [opened] at sizes sizesBehind
      rw [sizesBehind] at sizes
      cases sizes
    | cons opener => exact ⟨opener, rfl⟩
  · cases outer with
    | nil => cases sizesBehind
    | cons first =>
      refine Placed.of_frames inside ends.frames (outerReachable first mem_cons_self)
        (fun other mem => outerReachable other (mem_cons_of_mem first mem)) ?_
      rw [heightEq, ends.height]

include placed in
theorem Placed.finishes (parsedHere : body.parsed[ip]? = some .endExpression)
    (frames : (body.state ip).frames = frame :: outer)
    (same : body.state (ip + 1) = ⟨frame :: outer, (body.state ip).stack⟩) :
    function.openers ip = [] ∧ height = base + function.type.results.length := by
  obtain rfl := body.eq_last parsedHere
  have sound := body.sound (Nat.le_succ body.inner.length)
  rw [body.openers_last] at sound
  obtain ⟨⟨_, isFrame, isType, -, size⟩, ordered⟩ := sound
  rw [frames] at isFrame ordered
  obtain ⟨rfl, rfl⟩ := List.cons.inj isFrame
  refine ⟨body.openers_last, ?_⟩
  rcases placed.fits frame [] frames with ⟨reachable, heightEq⟩ | ⟨-, heightEq⟩
  · -- the validator takes the results and finds nothing else
    have results := body.analysis.results
    have length : (body.inner ++ [Instruction.endExpression]).length = body.inner.length + 1 :=
      body.length_parsed
    rw [length, Context.validateResults, same] at results
    dsimp only at results
    split at results
    · rename_i taken rest took
      rw [length_put_types, beq_iff_eq] at results
      have exactly := (take_types_taken ordered.1 took).1.exact reachable
      omega
    · cases results
  · rw [heightEq, size, isType]
    rfl

end Ladybone.Wasm.Control
