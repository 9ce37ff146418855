import Ladybone.Wasm.Control.Validator

/-!
# What the validator establishes

For each instruction, how the frames and the height of the stack change. In reachable code the
validator's stack has exactly the height the instruction needs; in unreachable code it is only
known not to fall below the innermost frame.
-/

namespace Ladybone.Wasm.Control

open List Option

variable {Ty Op : Type} {ctx : Context Ty Op}

/-! ## Heights -/

/-- So many entries were taken, as far as they were there. -/
structure Taken (frame : Frame Ty) (stack rest : List (StackEntry Ty)) (count : Nat) : Prop where
  lower : frame.initialSize ≤ rest.length
  exact : frame.unreachable = false → stack.length = rest.length + count

variable {frame : Frame Ty} {stack rest entries put : List (StackEntry Ty)} {count : Nat}
  {entry : StackEntry Ty} {types : List Ty} {outer : List (Frame Ty)} {next : Checked Ty}
  {type : FunctionType Ty}

theorem Taken.trans {middle : List (StackEntry Ty)} {more : Nat}
    (first : Taken frame stack middle count) (second : Taken frame middle rest more) :
    Taken frame stack rest (more + count) where
  lower := second.lower
  exact reachable := by
    have := first.exact reachable
    have := second.exact reachable
    omega

section
variable (lower : frame.initialSize ≤ stack.length)

include lower

theorem take_last_taken (took : takeLast frame stack = some (entry, rest)) :
    Taken frame stack rest 1 := by
  unfold takeLast at took
  split_ifs at took with empty unreachable
  · cases took
    exact ⟨lower, fun reachable => absurd unreachable (by simp [reachable])⟩
  · cases stack with
    | nil => cases took
    | cons =>
      cases took
      rw [length_cons] at lower empty
      exact ⟨by omega, fun _ => length_cons⟩

theorem take_taken {type : Ty} (took : ctx.take frame type stack = some (entry, rest)) :
    Taken frame stack rest 1 := by
  unfold Context.take at took
  split at took
  · split_ifs at took
    cases took
    exact take_last_taken lower ‹_›
  · cases took

theorem take_from_taken (took : ctx.takeFrom frame types stack = some (entries, rest)) :
    Taken frame stack rest types.length ∧ entries.length = types.length := by
  induction types generalizing stack entries with
  | nil =>
    cases took
    exact ⟨⟨lower, fun _ => rfl⟩, rfl⟩
  | cons _ _ ih =>
    simp only [Context.takeFrom] at took
    split at took
    next entry middle one =>
      split at took
      next later final more =>
        cases took
        have first := take_taken lower one
        obtain ⟨second, len⟩ := ih first.lower more
        rw [length_cons, length_cons, len]
        exact ⟨first.trans second, rfl⟩
      next => cases took
    next => cases took

theorem take_types_taken (took : ctx.takeTypes frame types stack = some (entries, rest)) :
    Taken frame stack rest types.length ∧ entries.length = types.length := by
  have taken := take_from_taken lower took
  rwa [length_reverse] at taken

theorem take_many_taken (took : takeMany frame count stack = some (entries, rest)) :
    Taken frame stack rest count := by
  induction count generalizing stack entries with
  | zero =>
    cases took
    exact ⟨lower, fun _ => rfl⟩
  | succ _ ih =>
    simp only [takeMany] at took
    split at took
    next entry middle one =>
      split at took
      next later final more =>
        cases took
        have first := take_last_taken lower one
        exact first.trans (ih first.lower more)
      next => cases took
    next => cases took

omit lower in
theorem length_put_types (types : List Ty) (stack : List (StackEntry Ty)) :
    (putTypes types stack).length = types.length + stack.length := by
  simp [putTypes]

omit lower in
theorem length_shrink_to {size : Nat} (lower : size ≤ stack.length) :
    (shrinkTo size stack).length = size := by
  rw [shrinkTo, length_drop]
  omega

theorem check_table_labels_taken {frames : List (Frame Ty)} {arity : Nat} {labels : List Nat}
    (checked : ctx.checkTableLabels frame frames arity labels stack = some rest) :
    frame.initialSize ≤ rest.length ∧ (frame.unreachable = false → rest.length = stack.length) ∧
      ∀ label ∈ labels, ∃ target, frames[label]? = some target ∧ target.labels.length = arity := by
  induction labels generalizing stack with
  | nil =>
    cases checked
    exact ⟨lower, fun _ => rfl, by simp⟩
  | cons _ _ ih =>
    simp only [Context.checkTableLabels] at checked
    split at checked
    next middle one =>
      unfold Context.checkTableLabel at one
      split at one
      next => cases one
      next target found =>
        split_ifs at one with different
        split at one
        next popped left took =>
          cases one
          obtain ⟨taken, len⟩ := take_types_taken lower took
          obtain ⟨lower', same, rest⟩ := ih
            (by rw [length_append]; have := taken.lower; omega) checked
          refine ⟨lower', fun reachable => ?_, ?_⟩
          · rw [same reachable, length_append, taken.exact reachable]
            omega
          · exact forall_mem_cons.mpr ⟨⟨target, found, not_not.mp different⟩, rest⟩
        next => cases one
    next => cases checked

/-! ## One instruction -/

/-- Reachable code goes on with these heights. -/
structure Replaces (frame : Frame Ty) (stack : List (StackEntry Ty)) (next : Checked Ty)
    (outer : List (Frame Ty)) (pops pushes : Nat) : Prop where
  frames : next.frames = frame :: outer
  lower : frame.initialSize ≤ next.stack.length
  heights : frame.unreachable = false →
    ∃ rest, frame.initialSize ≤ rest ∧ stack.length = rest + pops ∧
      next.stack.length = rest + pushes

structure Stops (frame : Frame Ty) (stack : List (StackEntry Ty)) (next : Checked Ty)
    (outer : List (Frame Ty)) (needs : Nat) : Prop where
  frames : next.frames = { frame with unreachable := true } :: outer
  height : next.stack.length = frame.initialSize
  enough : frame.unreachable = false → frame.initialSize + needs ≤ stack.length

structure Enters (context : Context Ty Op) (kind : FrameKind) (conditions : Nat)
    (frame : Frame Ty) (stack : List (StackEntry Ty)) (next : Checked Ty)
    (outer : List (Frame Ty)) (args filled : StructuredArgs Ty) (type : FunctionType Ty)
    (initial : Nat) : Prop where
  blockType : context.blockType args.blockType = some type
  filled : filled =
    { args with arity := type.results.length, parameterCount := type.parameters.length }
  frames : next.frames = ⟨type, kind, initial, false⟩ :: frame :: outer
  height : next.stack.length = initial + type.parameters.length
  lower : frame.initialSize ≤ initial
  before : frame.unreachable = false → stack.length = initial + type.parameters.length + conditions

structure Elses (frame : Frame Ty) (stack : List (StackEntry Ty)) (next : Checked Ty)
    (outer : List (Frame Ty)) : Prop where
  kind : frame.kind = .if_
  frames : next.frames = { frame with kind := .else_, unreachable := false } :: outer
  height : next.stack.length = frame.initialSize + frame.type.parameters.length
  before : frame.unreachable = false → stack.length = frame.initialSize + frame.type.results.length

structure Ends (frame : Frame Ty) (stack : List (StackEntry Ty)) (next : Checked Ty)
    (outer : List (Frame Ty)) : Prop where
  frames : next.frames = outer
  height : next.stack.length = frame.initialSize + frame.type.results.length
  before : frame.unreachable = false → stack.length = frame.initialSize + frame.type.results.length
  without_else : frame.kind = .if_ → frame.type.parameters.length = frame.type.results.length

def Spec (context : Context Ty Op) (frame : Frame Ty) (outer : List (Frame Ty))
    (stack : List (StackEntry Ty)) (next : Checked Ty) :
    Instruction Ty Op → Instruction Ty Op → Prop
  | .block args, filled => ∃ args' type initial, filled = .block args' ∧
      Enters context .block 0 frame stack next outer args args' type initial
  | .loop args, filled => ∃ args' type initial, filled = .loop args' ∧
      Enters context .loop 0 frame stack next outer args args' type initial
  | .if_ args, filled => ∃ args' type initial, filled = .if_ args' ∧
      Enters context .if_ 1 frame stack next outer args args' type initial
  | .structuredElse, filled => filled = .structuredElse ∧ Elses frame stack next outer
  | .structuredEnd, filled => filled = .structuredEnd ∧ Ends frame stack next outer
  | .br label _, filled => ∃ target adjusts, filled = .br label adjusts ∧
      (frame :: outer)[label]? = some target ∧
      Stops frame stack next outer target.labels.length ∧
      (adjusts = false → frame.unreachable = false →
        stack.length = target.initialSize + target.labels.length)
  | .brIf label _, filled => ∃ target adjusts, filled = .brIf label adjusts ∧
      (frame :: outer)[label]? = some target ∧ Replaces frame stack next outer 1 0 ∧
      (frame.unreachable = false → frame.initialSize + target.labels.length ≤ next.stack.length) ∧
      (adjusts = false → next.stack.length = target.initialSize)
  | .brTable labels default_, filled => ∃ target, filled = .brTable labels default_ ∧
      (frame :: outer)[default_]? = some target ∧
      (∀ label ∈ labels, ∃ other, (frame :: outer)[label]? = some other ∧
        other.labels.length = target.labels.length) ∧
      Stops frame stack next outer (target.labels.length + 1)
  | .return_, filled => ∃ first, filled = .return_ ∧ (frame :: outer).getLast? = some first ∧
      Stops frame stack next outer first.type.results.length
  | .unreachable, filled => filled = .unreachable ∧ Stops frame stack next outer 0
  | .call function, filled => ∃ type, filled = .call function ∧
      context.functions[function]? = some type ∧
      Replaces frame stack next outer type.parameters.length type.results.length
  | .callIndirect index addressType, filled => ∃ type, filled = .callIndirect index addressType ∧
      (context.types[index]?).join = some type ∧
      Replaces frame stack next outer (type.parameters.length + 1) type.results.length
  | .returnCall function, filled => ∃ type first, filled = .returnCall function ∧
      context.functions[function]? = some type ∧ (frame :: outer).getLast? = some first ∧
      first.type.results = type.results ∧ Stops frame stack next outer type.parameters.length
  | .returnCallIndirect index addressType, filled => ∃ type first,
      filled = .returnCallIndirect index addressType ∧
      (context.types[index]?).join = some type ∧ (frame :: outer).getLast? = some first ∧
      first.type.results = type.results ∧
      Stops frame stack next outer (type.parameters.length + 1)
  | .other op, filled => filled = .other op ∧
      Replaces frame stack next outer (context.pops op) (context.pushes op)
  | .endExpression, filled => filled = .endExpression ∧ next = ⟨frame :: outer, stack⟩

theorem enter_block_spec {kind : FrameKind} {args filled : StructuredArgs Ty}
    (entered : ctx.enterBlock kind frame outer args stack = some (filled, next)) :
    ∃ type init, Enters ctx kind 0 frame stack next outer args filled type init := by
  obtain ⟨type, blockType, entered⟩ := bind_eq_some_iff.mp entered
  obtain ⟨⟨taken, rest⟩, took, ⟨⟩⟩ := bind_eq_some_iff.mp entered
  obtain ⟨taken, -⟩ := take_types_taken lower took
  refine ⟨type, rest.length, blockType, rfl, rfl, ?_, taken.lower, fun reachable => ?_⟩
  · rw [length_put_types, Nat.add_comm]
  · rw [taken.exact reachable]
    rfl

theorem validate_else_spec (valid : ctx.validateElse frame outer stack = some next) :
    Elses frame stack next outer := by
  obtain ⟨kind, valid⟩ := ite_none_right_eq_some.mp valid
  obtain ⟨⟨taken, rest⟩, took, valid⟩ := bind_eq_some_iff.mp valid
  obtain ⟨height, ⟨⟩⟩ := ite_none_right_eq_some.mp valid
  obtain ⟨taken, -⟩ := take_types_taken lower took
  refine ⟨kind, rfl, ?_, fun reachable => ?_⟩
  · rw [length_put_types, height, Nat.add_comm]
  · rw [taken.exact reachable, height]

theorem validate_end_spec (valid : ctx.validateEnd frame outer stack = some next) :
    next.frames = outer ∧ next.stack.length = frame.initialSize + frame.type.results.length ∧
      (frame.unreachable = false →
        stack.length = frame.initialSize + frame.type.results.length) := by
  obtain ⟨⟨taken, rest⟩, took, valid⟩ := bind_eq_some_iff.mp valid
  obtain ⟨height, ⟨⟩⟩ := ite_none_right_eq_some.mp valid
  obtain ⟨taken, -⟩ := take_types_taken lower took
  refine ⟨rfl, ?_, fun reachable => ?_⟩
  · rw [length_put_types, height, Nat.add_comm]
  · rw [taken.exact reachable, height]

theorem validate_end_of_block_spec (valid : ctx.validateEndOfBlock frame outer stack = some next) :
    Ends frame stack next outer := by
  unfold Context.validateEndOfBlock at valid
  split_ifs at valid with kind
  · obtain ⟨behind, elsed, valid⟩ := bind_eq_some_iff.mp valid
    have elses := validate_else_spec lower elsed
    rw [elses.frames] at valid
    obtain ⟨frames, height, before⟩ := validate_end_spec
      (by rw [elses.height]; exact Nat.le_add_right _ _) valid
    refine ⟨frames, height, elses.before, fun _ => ?_⟩
    -- the empty else has its parameters for results
    have same := before rfl
    rw [elses.height] at same
    exact Nat.add_left_cancel same
  · obtain ⟨frames, height, before⟩ := validate_end_spec lower valid
    exact ⟨frames, height, before, fun isIf => absurd isIf kind⟩

omit lower in
theorem stop_spec (taken : Taken frame stack rest count) :
    Stops frame stack (stop frame outer rest) outer count where
  frames := rfl
  height := length_shrink_to taken.lower
  enough reachable := by
    have := taken.exact reachable
    have := taken.lower
    omega

omit lower in
theorem replaces_of_taken {pushes : Nat} (taken : Taken frame stack rest count)
    (len : put.length = pushes + rest.length) :
    Replaces frame stack ⟨frame :: outer, put⟩ outer count pushes where
  frames := rfl
  lower := by
    have := taken.lower
    dsimp only
    omega
  heights reachable :=
    ⟨rest.length, taken.lower, taken.exact reachable, by dsimp only; omega⟩

theorem call_types_spec (called : ctx.callTypes frame type stack = some put) :
    ∃ rest, Taken frame stack rest type.parameters.length ∧
      put.length = type.results.length + rest.length := by
  obtain ⟨⟨taken, rest⟩, took, ⟨⟩⟩ := bind_eq_some_iff.mp called
  exact ⟨rest, (take_types_taken lower took).1, length_put_types _ _⟩

theorem tail_call_types_spec [DecidableEq Ty]
    (called : ctx.tailCallTypes frame outer type stack = some next) :
    ∃ first rest, (frame :: outer).getLast? = some first ∧ first.type.results = type.results ∧
      Taken frame stack rest type.parameters.length ∧ next = stop frame outer rest := by
  obtain ⟨⟨taken, rest⟩, took, called⟩ := bind_eq_some_iff.mp called
  obtain ⟨first, bottom, called⟩ := bind_eq_some_iff.mp called
  obtain ⟨same, ⟨⟩⟩ := ite_none_right_eq_some.mp called
  exact ⟨first, rest, bottom, same, (take_types_taken lower took).1, rfl⟩

theorem validate_spec [DecidableEq Ty] {insn filled : Instruction Ty Op}
    (valid : ctx.validate insn ⟨frame :: outer, stack⟩ = some (filled, next)) :
    Spec ctx frame outer stack next insn filled := by
  cases insn with
    simp only [Context.validate, bind_eq_bind, bind_eq_some_iff, some.injEq, Prod.mk.injEq,
      Prod.exists] at valid
  | block | loop =>
    obtain ⟨args', behind, entered, rfl, rfl⟩ := valid
    obtain ⟨type, init, enters⟩ := enter_block_spec lower entered
    exact ⟨args', type, init, rfl, enters⟩
  | if_ =>
    obtain ⟨entry, rest, took, args', behind, entered, rfl, rfl⟩ := valid
    have taken := take_taken lower took
    obtain ⟨type, init, enters⟩ := enter_block_spec taken.lower entered
    refine ⟨args', type, init, rfl, { enters with before := fun reachable => ?_ }⟩
    rw [taken.exact reachable, enters.before reachable]
  | structuredElse =>
    obtain ⟨behind, elsed, rfl, rfl⟩ := valid
    exact ⟨rfl, validate_else_spec lower elsed⟩
  | structuredEnd =>
    obtain ⟨behind, ended, rfl, rfl⟩ := valid
    exact ⟨rfl, validate_end_of_block_spec lower ended⟩
  | br =>
    obtain ⟨target, found, entries, rest, took, rfl, rfl⟩ := valid
    obtain ⟨taken, -⟩ := take_types_taken lower took
    refine ⟨target, _, rfl, found, stop_spec taken, fun same reachable => ?_⟩
    rw [bne_eq_false_iff_eq] at same
    rw [taken.exact reachable, same]
  | brIf =>
    obtain ⟨target, found, entry, middle, one, entries, rest, took, rfl, rfl⟩ := valid
    have first := take_taken lower one
    obtain ⟨taken, -⟩ := take_types_taken first.lower took
    have put := length_put_types target.labels rest
    refine ⟨target, _, rfl, found, ⟨rfl, ?_, fun reachable => ?_⟩, fun reachable => ?_,
      fun same => ?_⟩
    · have := taken.lower
      dsimp only
      omega
    · have := taken.exact reachable
      refine ⟨middle.length, first.lower, first.exact reachable, ?_⟩
      dsimp only
      omega
    · have := taken.lower
      dsimp only
      omega
    · rw [bne_eq_false_iff_eq] at same
      exact same.symm
  | brTable labels =>
    obtain ⟨target, found, entry, middle, one, checked, table, entries, rest, took, rfl, rfl⟩ :=
      valid
    have first := take_taken lower one
    obtain ⟨lower', same, labels⟩ := check_table_labels_taken first.lower table
    obtain ⟨taken, -⟩ := take_types_taken lower' took
    refine ⟨target, rfl, found, labels, rfl, length_shrink_to taken.lower, fun reachable => ?_⟩
    have := first.exact reachable
    have := taken.exact reachable
    have := same reachable
    have := taken.lower
    omega
  | return_ =>
    obtain ⟨first, bottom, entries, rest, took, rfl, rfl⟩ := valid
    exact ⟨first, rfl, bottom, stop_spec (take_types_taken lower took).1⟩
  | unreachable =>
    obtain ⟨rfl, rfl⟩ := valid
    exact ⟨rfl, stop_spec ⟨lower, fun _ => rfl⟩⟩
  | call =>
    obtain ⟨type, found, put, called, rfl, rfl⟩ := valid
    obtain ⟨rest, taken, len⟩ := call_types_spec lower called
    exact ⟨type, rfl, found, replaces_of_taken taken len⟩
  | callIndirect =>
    obtain ⟨type, found, entry, middle, one, put, called, rfl, rfl⟩ := valid
    have first := take_taken lower one
    obtain ⟨rest, taken, len⟩ := call_types_spec first.lower called
    exact ⟨type, rfl, found, replaces_of_taken (first.trans taken) len⟩
  | returnCall =>
    obtain ⟨type, found, behind, called, rfl, rfl⟩ := valid
    obtain ⟨first, rest, bottom, same, taken, rfl⟩ := tail_call_types_spec lower called
    exact ⟨type, first, rfl, found, bottom, same, stop_spec taken⟩
  | returnCallIndirect =>
    obtain ⟨type, found, entry, middle, one, behind, called, rfl, rfl⟩ := valid
    have before := take_taken lower one
    obtain ⟨first, rest, bottom, same, taken, rfl⟩ := tail_call_types_spec before.lower called
    exact ⟨type, first, rfl, found, bottom, same, stop_spec (before.trans taken)⟩
  | other op =>
    obtain ⟨entries, rest, took, put, checked, rfl, rfl⟩ := valid
    have len := ctx.check_length op entries put checked
    refine ⟨rfl, replaces_of_taken (take_many_taken lower took) ?_⟩
    rw [length_append, len]
  | endExpression => exact ⟨valid.1.symm, valid.2.symm⟩

end
end Ladybone.Wasm.Control
