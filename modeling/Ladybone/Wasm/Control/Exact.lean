import Ladybone.Support.Runs
import Ladybone.Wasm.Control.Transfers

/-!
# Exact control flow

Along every run of a call the labels of the current call are the lexical ones of the instruction
about to run, as long as no branch goes to an `if` with an `else` (whose label then stays behind)
and tail calls leave nothing of the current call behind.
-/

namespace Ladybone.Wasm.Control

open Support.Bracketing Support.Runs List Option Bool

variable {Ty Op Value World : Type} [DecidableEq Ty]

/-! ## Linked programs -/

structure Agrees (runtime : Runtime Ty Op Value World) (function : WasmFunction Ty Op)
    (context : Context Ty Op) : Prop where
  types : function.types = context.types
  functions : ∀ (index : Nat) type, context.functions[index]? = some type →
    ∃ address callee, function.addresses[index]? = some address ∧
      runtime.functions[address]? = some callee ∧ callee.type = type
  pops : ∀ op, runtime.pops op = context.pops op
  performs : ∀ op taken world results next, taken.length = context.pops op →
    runtime.perform op taken world = some (results, next) → results.length = context.pushes op

def Accepted (runtime : Runtime Ty Op Value World) (function : WasmFunction Ty Op) : Prop :=
  ∃ (context : Context Ty Op) (stream : List (Decoded Ty Op)) (parsed : List (Instruction Ty Op)),
    parse stream = some parsed ∧
      context.validateFunction function.type parsed = some function.code ∧
      Agrees runtime function context

structure Linked (runtime : Runtime Ty Op Value World) : Prop where
  bodies : ∀ (address : Nat) function, runtime.functions[address]? = some (.wasm function) →
    Accepted runtime function
  hosts : ∀ (address : Nat) type arguments world results next,
    runtime.functions[address]? = some (.host type) →
      runtime.hostCall address arguments world = some (results, next) →
        results.length = type.results.length

variable {runtime : Runtime Ty Op Value World} {fn : WasmFunction Ty Op}
  {outcome : Outcome Ty Op Value World}

theorem Accepted.body (accepted : Accepted runtime fn) :
    ∃ body : Body fn, Agrees runtime fn body.context := by
  obtain ⟨context, stream, parsed, isParsed, validated, agrees⟩ := accepted
  obtain ⟨inner, rfl, patched⟩ := parse_patched isParsed
  obtain ⟨state, analysis⟩ := validate_function_analysis validated
  exact ⟨⟨context, inner, state, patched, analysis⟩, agrees⟩

/-! ## Permitted steps -/

section
variable (runtime)

/-- The label a branch goes to, and the values it finds. -/
def branch (machine : Machine Ty Op Value World) : Option (Nat × List Value) :=
  match machine.frame.function.code[machine.frame.ip]?, machine.values with
  | some (.br label _), values => some (label, values)
  | some (.brIf label _), value :: values =>
    if runtime.isZero value then none else some (label, values)
  | some (.brTable labels default_), value :: values =>
    some ((labels[runtime.toU32 value]?).getD default_, values)
  | _, _ => none

def WasmFunction.intoElse (function : WasmFunction Ty Op) (ip index : Nat) : Bool :=
  match (function.openers ip)[index]? with
  | some opener =>
    match function.code[opener]? with
    | some (.if_ args) => args.elseIp.isSome
    | _ => false
  | none => false

def tailCallee (machine : Machine Ty Op Value World) : Option (Nat × List Value) :=
  match machine.frame.function.code[machine.frame.ip]?, machine.values with
  | some (.returnCall function), values =>
    (machine.frame.function.addresses[function]?).map (·, values)
  | some (.returnCallIndirect index _), value :: values =>
    (indirectCallee runtime index value machine).map (·, values)
  | _, _ => none

def Machine.functionHeight (machine : Machine Ty Op Value World) : Option Nat :=
  (machine.labels.drop (machine.labels.length - (machine.frame.labelIndex + 1))).head?.map
    Label.stackHeight

/-- A tail call that leaves nothing behind for a caller to find. -/
def cleanTail (depth : Nat) (machine : Machine Ty Op Value World) (callee : Function Ty Op)
    (operands : List Value) : Bool :=
  (machine.callers.length == depth ||
    machine.functionHeight.map (· + callee.type.parameters.length) == some operands.length) &&
  match callee with
  | .wasm _ => true
  | .host _ => machine.frame.labelIndex == 0

/-- The step is taken in the call or a call below it, and is none of those that go wrong. -/
def careful (depth : Nat) (machine : Machine Ty Op Value World) : Bool :=
  decide (depth ≤ machine.callers.length) &&
  (match branch runtime machine with
    | some (index, _) => !machine.frame.function.intoElse machine.frame.ip index
    | none => true) &&
  match tailCallee runtime machine with
  | some (address, operands) =>
    match runtime.functions[address]? with
    | some callee => cleanTail depth machine callee operands
    | none => true
  | none => true

def nextMachine (machine : Machine Ty Op Value World) (_ : Unit) :
    Option (Machine Ty Op Value World) :=
  match step runtime machine with
  | .running machine => some machine
  | _ => none

end

/-! ## The invariant -/

structure Running (runtime : Runtime Ty Op Value World) (machine : Machine Ty Op Value World)
    (body : Body machine.frame.function) (base : Nat) (below : List Label) : Prop where
  agrees : Agrees runtime machine.frame.function body.context
  labels_eq : machine.labels = body.labels base machine.frame.ip ++ below
  index_eq : machine.frame.labelIndex = below.length
  placed : Placed body base machine.frame.ip machine.values.length

/-- The calls that wait for the current one, down to the call the run started with: each goes on
behind its call when the results are on its values. -/
def Waits (runtime : Runtime Ty Op Value World) (bottom : List Label) :
    List (Activation Ty Op) → List Label → Nat → Nat → Prop
  | [], labels, _, _ => labels = bottom
  | caller :: rest, labels, height, results => ∃ (body : Body caller.function) (base : Nat)
      (below : List Label), Agrees runtime caller.function body.context ∧
        labels = body.labels base (caller.ip + 1) ++ below ∧ caller.labelIndex = below.length ∧
        Placed body base (caller.ip + 1) (height + results) ∧
        Waits runtime bottom rest below base caller.function.type.results.length

def Inside (runtime : Runtime Ty Op Value World) (callers : List (Activation Ty Op))
    (bottom : List Label) (machine : Machine Ty Op Value World) : Prop :=
  ∃ nested body base below, machine.callers = nested ++ callers ∧
    Running runtime machine body base below ∧
    Waits runtime bottom nested below base machine.frame.function.type.results.length

structure Left (callers : List (Activation Ty Op)) (bottom : List Label)
    (machine : Machine Ty Op Value World) : Prop where
  caller : ∃ caller, callers = caller :: machine.callers ∧
    machine.frame = { caller with ip := caller.ip + 1 }
  labels_eq : machine.labels = bottom

def Kept (runtime : Runtime Ty Op Value World) (callers : List (Activation Ty Op))
    (bottom : List Label) : Outcome Ty Op Value World → Prop
  | .running machine => Inside runtime callers bottom machine ∨ Left callers bottom machine
  | .finished labels _ _ => labels = bottom
  | .trapped => True
  | .crashed => False

section
variable {callers nested : List (Activation Ty Op)} {bottom below : List Label}
  {vm : Machine Ty Op Value World} {base idx ip height addr : Nat} {body : Body vm.frame.function}
  {label : Label} {vals : List Value} {rest : List Label} {fn : WasmFunction Ty Op}
  {frame target : Frame Ty} {outer : List (Frame Ty)} {world : World} {type : FunctionType Ty}
  {adjusts : Bool} {callee : Function Ty Op} {operands : List Value} {insn : Instruction Ty Op}
  (linked : Linked runtime) (callersEq : vm.callers = nested ++ callers)
  (runs : Running runtime vm body base below)
  (waits : Waits runtime bottom nested below base vm.frame.function.type.results.length)

include callersEq in
theorem leave_kept
    (waits : Waits runtime bottom nested vm.labels.tail base vm.frame.function.type.results.length)
    (size : vm.values.length = base + vm.frame.function.type.results.length) :
    Kept runtime callers bottom (leave runtime vm) := by
  unfold leave
  dsimp only
  rw [take_append_drop]
  cases nested with
  | nil =>
    rw [callersEq]
    cases callers with
    | nil => exact waits
    | cons caller => exact .inr ⟨⟨caller, rfl, rfl⟩, waits⟩
  | cons _ nested =>
    rw [callersEq]
    obtain ⟨body, callerBase, below, agrees, labels, idx, placed, waits⟩ := waits
    refine .inl ⟨nested, body, callerBase, below, rfl, ⟨agrees, labels, idx, ?_⟩, waits⟩
    rwa [← size] at placed

include runs in
theorem Running.function_label :
    vm.labels.drop (vm.labels.length - (vm.frame.labelIndex + 1)) =
      ⟨vm.frame.function.type.results.length, vm.frame.function.code.length - 1, base⟩ ::
        below := by
  have count : vm.labels.length - (vm.frame.labelIndex + 1) =
      (vm.frame.function.openers vm.frame.ip).length := by
    rw [runs.labels_eq, runs.index_eq, Body.labels]
    simp only [length_append, length_map, length_singleton]
    omega
  rw [count, runs.labels_eq, drop_append_of_le_length, Body.labels_drop_all]
  · rfl
  · unfold Body.labels
    simp only [length_append, length_map]
    omega

include callersEq runs waits in
theorem Running.continues {labels : List Label}
    (placed : Placed body base ip vals.length) (labelsEq : labels = body.labels base ip ++ below) :
    Kept runtime callers bottom (.running ⟨{ vm.frame with ip }, vm.callers, labels,
      vals, world⟩) :=
  .inl ⟨nested, body, base, below, callersEq, ⟨runs.agrees, labelsEq, runs.index_eq, placed⟩, waits⟩

/-! ## Branches -/

omit [DecidableEq Ty] in
theorem length_keep_top (enough : label.stackHeight + label.arity ≤ vals.length) :
    (keepTop label vals).length = label.stackHeight + label.arity := by
  unfold keepTop
  rw [length_append, length_take, length_drop]
  omega

omit [DecidableEq Ty] in
theorem branch_to_label_eq (dropped : vm.labels.drop idx = label :: rest)
    (exactly : adjusts = false → vm.values.length = label.stackHeight + label.arity) :
    branchToLabel adjusts idx vm = .running ({ vm with
      labels := label :: rest
      values := keepTop label vm.values }.goto label.continuation) := by
  unfold branchToLabel
  rw [dropped]
  cases adjusts with
  | true => rfl
  | false =>
    have drops : vm.values.length - label.stackHeight = label.arity := by
      have := exactly rfl
      omega
    rw [keepTop, drops, take_append_drop]
    rfl

theorem Live.branch {body : Body fn} (live : Live body base ip height frame outer)
    (dropped : (body.labels base ip).drop idx = label :: rest)
    (notElse : fn.intoElse ip idx = false) :
    body.labels base label.continuation = label :: rest ∧
      Placed body base label.continuation (label.stackHeight + label.arity) := by
  have inside : ip ≤ body.inner.length + 1 := Nat.le_of_succ_le (Nat.le_succ_of_le live.inside)
  cases opened : (fn.openers ip)[idx]? with
  | some opener =>
    rw [Body.labels_drop inside opened] at dropped
    obtain ⟨rfl, rfl⟩ := List.cons.inj dropped
    have opens := Body.opener_opens inside opened
    obtain ⟨kind, args, filled, type, init, construct⟩ := body.construct opens
    have continuation : (body.label base opener).continuation = fn.target opener := by
      rw [construct.label_eq]
    -- the frames around the construct are among those around the branch
    have outerReachable : ∀ other ∈ (body.state opener).frames, other.unreachable = false := by
      obtain ⟨inner, frames, -⟩ := (body.sound inside).1.at_opener opened
      intro other mem
      apply live.all_reachable other
      apply mem_of_mem_drop
      rw [frames]
      exact mem_cons_of_mem inner mem
    have noElse : ∀ args, fn.code[opener]? = some (.if_ args) → args.elseIp = none := by
      intro args isIf
      unfold WasmFunction.intoElse at notElse
      rw [opened] at notElse
      dsimp only at notElse
      rw [isIf] at notElse
      exact isNone_iff_eq_none.mp (isSome_eq_false_iff.mp notElse)
    obtain ⟨around, placed⟩ := Body.placed_target opens outerReachable noElse
    rw [continuation]
    exact ⟨Body.labels_cons around, placed⟩
  | none =>
    rw [getElem?_eq_none_iff] at opened
    have short : idx < (body.labels base ip).length := by
      have sizes := congrArg List.length dropped
      rw [length_drop, length_cons] at sizes
      omega
    have last : idx = (fn.openers ip).length := by
      unfold Body.labels at short
      rw [length_append, length_map, length_singleton] at short
      omega
    rw [last, Body.labels_drop_all] at dropped
    obtain ⟨rfl, rfl⟩ := List.cons.inj dropped
    have lastEq : fn.code.length - 1 = body.inner.length := by
      rw [body.length_code]
      rfl
    refine ⟨Body.labels_nil ?_, Body.placed_last⟩
    rw [lastEq]
    exact body.openers_last

/-- What a taken branch does: it goes to the label its index names and keeps the label's values
on top of those below it. -/
def BranchesTo (machine : Machine Ty Op Value World) (labels below : List Label) (index : Nat)
    (operands : List Value) (outcome : Outcome Ty Op Value World) : Prop :=
  ∃ label rest, labels.drop index = label :: rest ∧
    label.stackHeight + label.arity ≤ operands.length ∧
    outcome = .running ({ machine with
      labels := label :: rest ++ below
      values := keepTop label operands }.goto label.continuation)

theorem Body.initial_le {body : Body fn}
    (inside : ip ≤ body.inner.length + 1) (frames : (body.state ip).frames = frame :: outer)
    (found : (frame :: outer)[idx]? = some target) : target.initialSize ≤ frame.initialSize := by
  have ordered := (body.sound inside).2
  rw [frames] at ordered
  cases idx with
  | zero =>
    cases found
    exact Nat.le_refl _
  | succ => exact ordered.2.initial_le found

open Body

section

include runs

theorem Running.branches_to (frames : (body.state vm.frame.ip).frames = frame :: outer)
    (found : (frame :: outer)[idx]? = some target)
    (enough : base + frame.initialSize + target.labels.length ≤ operands.length)
    (exactly : adjusts = false →
      operands.length = base + target.initialSize + target.labels.length) :
    BranchesTo vm (body.labels base vm.frame.ip) below idx operands
      (branchToLabel adjusts idx { vm with values := operands }) := by
  have inside := runs.placed.within
  have initialLe := body.initial_le inside frames found
  rw [← frames] at found
  obtain ⟨label, rest, dropped, arity, stackHeight⟩ :
      ∃ label rest, (body.labels base vm.frame.ip).drop idx = label :: rest ∧
        label.arity = target.labels.length ∧ label.stackHeight = base + target.initialSize :=
    label_found inside found
  refine ⟨label, rest, dropped, by omega, ?_⟩
  have droppedAll : vm.labels.drop idx = label :: rest ++ below := by
    have within : idx < (body.labels base vm.frame.ip).length := by
      have sizes := congrArg List.length dropped
      rw [length_drop, length_cons] at sizes
      omega
    rw [runs.labels_eq, drop_append_of_le_length (Nat.le_of_lt within), dropped]
  refine branch_to_label_eq droppedAll fun isFalse => ?_
  have := exactly isFalse
  dsimp only
  omega

include callersEq waits in
theorem BranchesTo.kept
    (branches : BranchesTo vm (body.labels base vm.frame.ip) below idx operands outcome)
    (live : Live body base vm.frame.ip height frame outer)
    (notElse : vm.frame.function.intoElse vm.frame.ip idx = false) :
    Kept runtime callers bottom outcome := by
  obtain ⟨label, rest, dropped, enough, rfl⟩ := branches
  obtain ⟨labels, placed⟩ := live.branch dropped notElse
  refine runs.continues callersEq waits ?_ ?_
  · rwa [length_keep_top enough]
  · rw [labels]

theorem Running.branch_step (taken : branch runtime vm = some (idx, operands)) :
    BranchesTo vm (body.labels base vm.frame.ip) below idx operands (step runtime vm) := by
  have inside : vm.frame.ip < vm.frame.function.code.length := by
    rw [body.length_code]
    exact Nat.lt_succ_of_le runs.placed.inside
  have codeHere := getElem?_eq_getElem inside
  obtain ⟨insn, frame, outer, parsedHere, frames, spec⟩ := body.parsed_at codeHere
  generalize vm.frame.function.code[vm.frame.ip] = filled at codeHere spec
  have alive := runs.placed.live parsedHere frames
  unfold branch at taken
  rw [codeHere] at taken
  unfold step
  rw [codeHere]
  cases insn with
  | br _ adjusts =>
    obtain ⟨target, adjusts, rfl, found, stops, exactly⟩ := spec
    have live := alive (by simp)
    cases taken
    have enough := stops.enough live.reachable
    have height := live.height_eq
    refine runs.branches_to frames found (by omega) fun noAdjustment => ?_
    rw [or_eq_false_iff] at noAdjustment
    rw [height, exactly noAdjustment.2 live.reachable, Nat.add_assoc]
  | brIf _ adjusts =>
    obtain ⟨target, adjusts, rfl, found, replaces, enough, exactly⟩ := spec
    have live := alive (by simp)
    have height := live.height_eq
    obtain ⟨rest, lower, before, behind⟩ := replaces.heights live.reachable
    have enough := enough live.reachable
    cases values : vm.values with
    | nil =>
      rw [values] at taken
      cases taken
    | cons =>
      rw [values] at taken height
      rw [length_cons] at height
      dsimp only at taken ⊢
      split_ifs at taken with zero
      cases taken
      rw [if_neg zero]
      refine runs.branches_to frames found (by omega) fun noAdjustment => ?_
      rw [or_eq_false_iff] at noAdjustment
      have := exactly noAdjustment.2
      have := body.initial_le runs.placed.within frames found
      omega
  | brTable labels default_ =>
    obtain ⟨target, rfl, found, others, stops⟩ := spec
    have live := alive (by simp)
    have height := live.height_eq
    have enough := stops.enough live.reachable
    cases values : vm.values with
    | nil =>
      rw [values] at taken
      cases taken
    | cons val =>
      rw [values] at taken height
      rw [length_cons] at height
      cases taken
      have selected : ∃ other,
          (frame :: outer)[(labels[runtime.toU32 val]?).getD default_]? = some other ∧
            other.labels.length = target.labels.length := by
        cases chosen : labels[runtime.toU32 val]? with
        | some label => exact others label (mem_of_getElem? chosen)
        | none => exact ⟨target, found, rfl⟩
      obtain ⟨other, foundOther, sameArity⟩ := selected
      exact runs.branches_to frames foundOther (by omega) (by simp)
  | _ =>
    first
    | cases spec.1
      cases taken
    | obtain ⟨_, rfl, -⟩ := spec
      cases taken
    | obtain ⟨_, _, rfl, -⟩ := spec
      cases taken
    | obtain ⟨_, _, _, rfl, -⟩ := spec
      cases taken

end

/-! ## Calls -/

section

theorem entered_kept {labels : List Label} {above : List (Activation Ty Op)}
    (accepted : Accepted runtime fn)
    (waits : Waits runtime bottom nested labels vals.length fn.type.results.length)
    (callersEq : above = nested ++ callers) :
    Kept runtime callers bottom (.running (entered fn above labels vals world)) := by
  obtain ⟨body, agrees⟩ := accepted.body
  have start : (body.state 0).frames = [⟨fn.type, .function, 0, false⟩] := by
    rw [body.analysis.start]
  have noStack : (body.state 0).stack = [] := by
    rw [body.analysis.start]
  have placed : Placed body vals.length 0 vals.length := by
    refine Placed.of_frames (Nat.zero_le _) start rfl (fun _ mem => ?_) ?_
    · cases mem
    · rw [noStack]
      rfl
  exact .inl ⟨nested, body, vals.length, labels, callersEq, ⟨agrees, rfl, rfl, placed⟩, waits⟩

include linked callersEq runs waits

theorem call_kept {rest : Nat} (found : runtime.functions[addr]? = some callee)
    (same : vm.frame.function.openers (vm.frame.ip + 1) = vm.frame.function.openers vm.frame.ip)
    (height : operands.length = rest + callee.type.parameters.length)
    (placed : Placed body base (vm.frame.ip + 1) (rest + callee.type.results.length)) :
    Kept runtime callers bottom (callAddress runtime addr { vm with values := operands }) := by
  have restEq : (operands.drop callee.type.parameters.length).length = rest := by
    rw [length_drop, height, Nat.add_sub_cancel]
  unfold callAddress
  rw [found]
  cases callee with
  | wasm fn =>
    refine @entered_kept _ _ _ _ _ _ _ (vm.frame :: nested) _ _ _ _ _ _
      (linked.bodies addr fn found) ?_ (by rw [callersEq]; rfl)
    refine ⟨body, base, below, runs.agrees, ?_, runs.index_eq, ?_, waits⟩
    · rw [runs.labels_eq, labels_congr same]
    · rwa [restEq]
  | host type =>
    dsimp only
    split
    · trivial
    · rename_i results world called
      have resultsLength := linked.hosts addr type _ _ _ _ found called
      have size : (results ++ operands.drop
          (Function.host type : Function Ty Op).type.parameters.length).length =
            rest + type.results.length := by
        rw [length_append, restEq, resultsLength, Nat.add_comm]
      refine runs.continues callersEq waits ?_ ?_
      · rwa [size]
      · dsimp only
        rw [runs.labels_eq, labels_congr same]

theorem tail_call_kept (found : runtime.functions[addr]? = some callee)
    (results : callee.type.results = vm.frame.function.type.results)
    (enough : base + callee.type.parameters.length ≤ operands.length)
    (clean : cleanTail callers.length vm callee operands = true) :
    Kept runtime callers bottom (tailCallAddress runtime addr { vm with values := operands }) := by
  have dropped : vm.labels.drop (vm.labels.length - vm.frame.labelIndex) = below := by
    rw [runs.labels_eq, runs.index_eq, length_append, Nat.add_sub_cancel, drop_left]
  have height : vm.functionHeight = some base := by
    rw [Machine.functionHeight, runs.function_label]
    rfl
  unfold cleanTail at clean
  rw [and_eq_true, or_eq_true, beq_iff_eq, beq_iff_eq, height] at clean
  obtain ⟨nothingLeft, hostAlone⟩ := clean
  -- the values of the caller stay what they were, unless nobody in the run waits for them
  have waitsThere : ∀ count, count = callee.type.results.length →
      Waits runtime bottom nested below (operands.drop callee.type.parameters.length).length
        count := by
    rintro _ rfl
    rw [results]
    cases nested with
    | nil => exact waits
    | cons =>
      have isClean : (operands.drop callee.type.parameters.length).length = base := by
        rcases nothingLeft with noCaller | exactly
        · rw [callersEq, length_append, length_cons] at noCaller
          omega
        · rw [map_some, some.injEq] at exactly
          rw [length_drop]
          omega
      rwa [isClean]
  unfold tailCallAddress
  rw [found, dropped]
  cases callee with
  | wasm fn =>
    exact entered_kept (linked.bodies addr fn found) (waitsThere _ rfl) callersEq
  | host type =>
    dsimp only
    split
    · trivial
    · rename_i values world called
      have alone : below = [] := by
        rw [beq_iff_eq, runs.index_eq] at hostAlone
        exact eq_nil_of_length_eq_zero hostAlone
      have resultsLength := linked.hosts addr type _ _ _ _ found called
      subst alone
      refine @leave_kept _ _ _ _ _ _ _ _ _ _ _ callersEq (waitsThere _ (by rw [results])) ?_
      rw [length_append, resultsLength, ← results, Nat.add_comm]
      rfl

end

/-! ## Steps -/

include runs in
theorem Running.indirect_callee_type {val : Value}
    (isType : (body.context.types[idx]?).join = some type)
    (resolved : indirectCallee runtime idx val vm = some addr) :
    ∃ callee, runtime.functions[addr]? = some callee ∧ callee.type = type := by
  obtain ⟨expected, isExpected, resolved⟩ := bind_eq_some_iff.mp resolved
  obtain ⟨there, -, resolved⟩ := bind_eq_some_iff.mp resolved
  obtain ⟨callee, found, resolved⟩ := bind_eq_some_iff.mp resolved
  obtain ⟨same, ⟨⟩⟩ := ite_none_right_eq_some.mp resolved
  rw [runs.agrees.types, isType, some.injEq] at isExpected
  exact ⟨callee, found, same.trans isExpected.symm⟩

section

include callersEq runs waits

theorem Running.falls (codeHere : vm.frame.function.code[vm.frame.ip]? = some insn)
    (plain : insn.mark = .plain) (placed : Placed body base (vm.frame.ip + 1) height)
    (size : vals.length = height) :
    Kept runtime callers bottom (Machine.advance { vm with values := vals, world }) := by
  refine runs.continues callersEq waits ?_ ?_
  · rwa [size]
  · dsimp only
    rw [runs.labels_eq, labels_congr (WasmFunction.openers_plain codeHere plain)]

theorem Running.enters (codeHere : vm.frame.function.code[vm.frame.ip]? = some insn)
    (opens : insn.mark = .opens) (placed : Placed body base (vm.frame.ip + 1) height)
    (size : vals.length = height) (labelEq : label = body.label base vm.frame.ip) :
    Kept runtime callers bottom
      (Machine.advance { vm with labels := label :: vm.labels, values := vals }) := by
  have opened : vm.frame.function.openers (vm.frame.ip + 1) =
      vm.frame.ip :: vm.frame.function.openers vm.frame.ip := by
    rw [WasmFunction.openers_succ codeHere, opens]
    rfl
  refine runs.continues callersEq waits ?_ ?_
  · rwa [size]
  · rw [runs.labels_eq, labels_cons opened, labelEq]
    rfl

theorem other_kept {op : Op} (codeHere : vm.frame.function.code[vm.frame.ip]? = some (.other op))
    (live : Live body base vm.frame.ip vm.values.length frame outer)
    (replaces : Replaces frame (body.state vm.frame.ip).stack
      (body.state (vm.frame.ip + 1)) outer (body.context.pops op) (body.context.pushes op)) :
    Kept runtime callers bottom (step runtime vm) := by
  obtain ⟨rest, height, placed⟩ := live.replaces replaces
  unfold step
  rw [codeHere]
  dsimp only
  split
  · trivial
  · rename_i results world performed
    rw [runs.agrees.pops op] at performed ⊢
    have taken : (vm.values.take (body.context.pops op)).length = body.context.pops op := by
      rw [length_take]
      omega
    have pushed := runs.agrees.performs op _ _ _ _ taken performed
    refine runs.falls callersEq waits codeHere rfl placed ?_
    rw [length_append, pushed, length_drop, height, Nat.add_sub_cancel, Nat.add_comm]

theorem if_kept {args filled : StructuredArgs Ty} {init : Nat}
    (codeHere : vm.frame.function.code[vm.frame.ip]? = some (.if_ filled))
    (live : Live body base vm.frame.ip vm.values.length frame outer)
    (construct : Construct body vm.frame.ip .if_ args filled type init)
    (enters : Enters body.context .if_ 1 frame (body.state vm.frame.ip).stack
      (body.state (vm.frame.ip + 1)) outer args filled type init) :
    Kept runtime callers bottom (step runtime vm) := by
  have height := live.opens_height enters
  have params : filled.parameterCount = type.parameters.length := by rw [enters.filled]
  unfold step
  rw [codeHere]
  obtain ⟨val, operands, vals⟩ := exists_cons_of_length_eq_add_one height
  rw [vals] at height ⊢
  rw [length_cons] at height
  have operandsHeight : operands.length = base + init + filled.parameterCount := by omega
  have labelEq : (⟨filled.arity, filled.endIp, operands.length - filled.parameterCount⟩ : Label) =
      body.label base vm.frame.ip := by
    rw [operandsHeight, Nat.add_sub_cancel, label_enters enters, construct.target_eq, enters.filled]
    rfl
  unfold enterIf
  dsimp only
  split_ifs
  · cases elseIp : filled.elseIp with
    | some behind =>
      have isElse : args.elseIp = some behind := by rw [← elseIp, enters.filled]
      obtain ⟨around, placed⟩ := live.if_else construct isElse
      refine runs.continues callersEq waits ?_ ?_
      · rwa [operandsHeight, params]
      · rw [labelEq, runs.labels_eq, labels_cons around]
        rfl
    | none =>
      have noElse : args.elseIp = none := by rw [← elseIp, enters.filled]
      have endIp : filled.endIp = args.endIp := by rw [enters.filled]
      obtain ⟨around, placed⟩ := live.if_skipped construct noElse
      rw [endIp]
      refine runs.continues callersEq waits ?_ ?_
      · rwa [operandsHeight, params]
      · rw [runs.labels_eq, labels_congr around]
  · exact runs.enters callersEq waits codeHere rfl (live.opens enters) operandsHeight labelEq

theorem return_kept {first : Frame Ty}
    (codeHere : vm.frame.function.code[vm.frame.ip]? = some .return_)
    (live : Live body base vm.frame.ip vm.values.length frame outer)
    (last : (frame :: outer).getLast? = some first)
    (stops : Stops frame (body.state vm.frame.ip).stack (body.state (vm.frame.ip + 1))
      outer first.type.results.length) : Kept runtime callers bottom (step runtime vm) := by
  have inside := runs.placed.within
  rw [← live.frames] at last
  have isType := (body.sound inside).1.last last
  have enough := stops.enough live.reachable
  have height := live.height_eq
  rw [isType] at enough
  unfold step
  rw [codeHere]
  unfold returnFrom
  rw [runs.function_label]
  refine leave_kept callersEq waits ?_
  dsimp only
  split_ifs with more
  · rw [length_keep_top (Nat.le_of_lt more)]
  · omega

theorem else_kept (codeHere : vm.frame.function.code[vm.frame.ip]? = some .structuredElse)
    (parsedHere : body.parsed[vm.frame.ip]? = some .structuredElse)
    (live : Live body base vm.frame.ip vm.values.length frame outer)
    (elses : Elses frame (body.state vm.frame.ip).stack (body.state (vm.frame.ip + 1))
      outer) : Kept runtime callers bottom (step runtime vm) := by
  have inside := runs.placed.within
  obtain ⟨opener, opened, around, placed⟩ := live.elses parsedHere elses
  have labels := runs.labels_eq
  rw [labels_cons opened, cons_append] at labels
  have found : (vm.frame.function.openers vm.frame.ip)[0]? = some opener := by
    rw [opened]
    rfl
  obtain ⟨_, _, _, _, _, construct⟩ := body.construct (opener_opens inside found)
  unfold step
  rw [codeHere]
  rw [labels]
  rw [construct.label_eq]
  refine runs.continues callersEq waits placed ?_
  rw [labels_congr around]

theorem end_kept (codeHere : vm.frame.function.code[vm.frame.ip]? = some .structuredEnd)
    (parsedHere : body.parsed[vm.frame.ip]? = some .structuredEnd)
    (frames : (body.state vm.frame.ip).frames = frame :: outer)
    (ends : Ends frame (body.state vm.frame.ip).stack (body.state (vm.frame.ip + 1))
      outer) : Kept runtime callers bottom (step runtime vm) := by
  obtain ⟨⟨opener, opened⟩, placed⟩ := runs.placed.ends parsedHere frames ends
  have labels := runs.labels_eq
  rw [labels_cons opened] at labels
  unfold step
  rw [codeHere]
  rw [labels]
  exact runs.continues callersEq waits placed rfl

end

theorem careful_spec (isCareful : careful runtime callers.length vm = true) :
    callers.length ≤ vm.callers.length ∧
      (∀ idx operands, branch runtime vm = some (idx, operands) →
        vm.frame.function.intoElse vm.frame.ip idx = false) ∧
      (∀ addr operands callee, tailCallee runtime vm = some (addr, operands) →
        runtime.functions[addr]? = some callee →
          cleanTail callers.length vm callee operands = true) := by
  unfold careful at isCareful
  rw [and_eq_true, and_eq_true, decide_eq_true_eq] at isCareful
  obtain ⟨⟨within, branches⟩, tails⟩ := isCareful
  refine ⟨within, ?_, ?_⟩
  · intro idx operands taken
    rwa [taken, not_eq_true'] at branches
  · intro addr operands callee called found
    rw [called] at tails
    dsimp only at tails
    rwa [found] at tails

theorem step_kept (linked : Linked runtime) (isInside : Inside runtime callers bottom vm)
    (isCareful : careful runtime callers.length vm = true) :
    Kept runtime callers bottom (step runtime vm) := by
  obtain ⟨nested, body, base, below, callersEq, runs, waits⟩ := isInside
  obtain ⟨-, notElse, cleanTails⟩ := careful_spec isCareful
  have within : vm.frame.ip < vm.frame.function.code.length := by
    rw [body.length_code]
    exact Nat.lt_succ_of_le runs.placed.inside
  have codeHere := getElem?_eq_getElem within
  obtain ⟨insn, frame, outer, parsedHere, frames, spec⟩ := body.parsed_at codeHere
  generalize vm.frame.function.code[vm.frame.ip] = filled at codeHere spec
  have alive := runs.placed.live parsedHere frames
  have lastType : ∀ first, (frame :: outer).getLast? = some first →
      first.type = vm.frame.function.type := fun first =>
    frames ▸ (body.sound runs.placed.within).1.last
  cases insn with
  | block | loop =>
    obtain ⟨filled, type, init, rfl, enters⟩ := spec
    have live := alive (by simp)
    have height : vm.values.length = base + init + filled.parameterCount :=
      live.opens_height enters
    unfold step
    rw [codeHere]
    refine runs.enters callersEq waits codeHere rfl (live.opens enters) height ?_
    rw [label_enters enters, height, WasmFunction.target, codeHere, Nat.add_sub_cancel]
    rfl
  | if_ args =>
    obtain ⟨filled, type, init, rfl, enters⟩ := spec
    have live := alive (by simp)
    have target : vm.frame.function.target vm.frame.ip = args.endIp := by
      rw [WasmFunction.target, codeHere, enters.filled]
    exact if_kept callersEq runs waits codeHere live
      ⟨⟨_, parsedHere, rfl⟩, ⟨_, _, _, frames, enters⟩, target, fun _ => codeHere⟩ enters
  | structuredElse =>
    obtain ⟨rfl, elses⟩ := spec
    have live := alive (by simp)
    exact else_kept callersEq runs waits codeHere parsedHere live elses
  | structuredEnd =>
    obtain ⟨rfl, ends⟩ := spec
    exact end_kept callersEq runs waits codeHere parsedHere frames ends
  | br label adjusts =>
    obtain ⟨target, adjusts, rfl, -⟩ := spec
    have live := alive (by simp)
    have taken : branch runtime vm = some (label, vm.values) := by
      rw [branch, codeHere]
    exact (runs.branch_step taken).kept callersEq runs waits live (notElse _ _ taken)
  | brIf label adjusts =>
    obtain ⟨target, adjusts, rfl, -, replaces, -⟩ := spec
    have live := alive (by simp)
    obtain ⟨rest, height, placed⟩ := live.replaces replaces
    obtain ⟨val, operands, values⟩ := exists_cons_of_length_eq_add_one height
    rw [values] at height
    by_cases zero : runtime.isZero val = true
    · unfold step
      rw [codeHere, values]
      dsimp only
      rw [if_pos zero]
      exact runs.falls callersEq waits codeHere rfl placed (Nat.succ.inj height)
    · have taken : branch runtime vm = some (label, operands) := by
        rw [branch, codeHere, values]
        exact if_neg zero
      exact (runs.branch_step taken).kept callersEq runs waits live (notElse _ _ taken)
  | brTable labels default_ =>
    obtain ⟨target, rfl, -, -, stops⟩ := spec
    have live := alive (by simp)
    have height := live.height_eq
    have enough := stops.enough live.reachable
    obtain ⟨val, operands, values⟩ := exists_cons_of_length_pos (by omega : 0 < vm.values.length)
    have taken : branch runtime vm =
        some ((labels[runtime.toU32 val]?).getD default_, operands) := by
      rw [branch, codeHere, values]
    exact (runs.branch_step taken).kept callersEq runs waits live (notElse _ _ taken)
  | return_ =>
    obtain ⟨first, rfl, last, stops⟩ := spec
    have live := alive (by simp)
    exact return_kept callersEq runs waits codeHere live last stops
  | unreachable =>
    obtain ⟨rfl, -⟩ := spec
    unfold step
    rw [codeHere]
    trivial
  | call fn =>
    obtain ⟨type, rfl, isType, replaces⟩ := spec
    have live := alive (by simp)
    obtain ⟨rest, height, placed⟩ := live.replaces replaces
    obtain ⟨addr, callee, there, found, rfl⟩ := runs.agrees.functions fn type isType
    unfold step
    rw [codeHere]
    dsimp only
    rw [there]
    exact call_kept linked callersEq runs waits found (WasmFunction.openers_plain codeHere rfl)
      height placed
  | callIndirect idx =>
    obtain ⟨type, rfl, isType, replaces⟩ := spec
    have live := alive (by simp)
    obtain ⟨rest, height, placed⟩ := live.replaces replaces
    obtain ⟨val, operands, values⟩ := exists_cons_of_length_eq_add_one height
    rw [values] at height
    unfold step
    rw [codeHere, values]
    dsimp only
    cases resolved : indirectCallee runtime idx val vm with
    | none => trivial
    | some =>
      obtain ⟨callee, found, rfl⟩ := runs.indirect_callee_type isType resolved
      exact call_kept linked callersEq runs waits found
        (WasmFunction.openers_plain codeHere rfl) (Nat.succ.inj height) placed
  | returnCall fn =>
    obtain ⟨type, first, rfl, isType, last, sameResults, stops⟩ := spec
    have live := alive (by simp)
    have height := live.height_eq
    have enough := stops.enough live.reachable
    rw [lastType _ last] at sameResults
    obtain ⟨addr, callee, there, found, rfl⟩ := runs.agrees.functions fn type isType
    have called : tailCallee runtime vm = some (addr, vm.values) := by
      rw [tailCallee, codeHere]
      dsimp only
      rw [there, map_some]
    unfold step
    rw [codeHere]
    dsimp only
    rw [there]
    exact tail_call_kept linked callersEq runs waits found sameResults.symm (by omega)
      (cleanTails _ _ _ called found)
  | returnCallIndirect idx =>
    obtain ⟨type, first, rfl, isType, last, sameResults, stops⟩ := spec
    have live := alive (by simp)
    have height := live.height_eq
    have enough := stops.enough live.reachable
    rw [lastType _ last] at sameResults
    obtain ⟨val, operands, values⟩ := exists_cons_of_length_pos (by omega : 0 < vm.values.length)
    rw [values, length_cons] at height
    unfold step
    rw [codeHere, values]
    dsimp only
    cases resolved : indirectCallee runtime idx val vm with
    | none => trivial
    | some addr =>
      obtain ⟨callee, found, rfl⟩ := runs.indirect_callee_type isType resolved
      have called : tailCallee runtime vm = some (addr, operands) := by
        rw [tailCallee, codeHere, values]
        dsimp only
        rw [resolved, map_some]
      exact tail_call_kept linked callersEq runs waits found sameResults.symm (by omega)
        (cleanTails _ _ _ called found)
  | other =>
    obtain ⟨rfl, replaces⟩ := spec
    have live := alive (by simp)
    exact other_kept callersEq runs waits codeHere live replaces
  | endExpression =>
    obtain ⟨rfl, same⟩ := spec
    obtain ⟨empty, height⟩ := runs.placed.finishes parsedHere frames same
    unfold step
    rw [codeHere]
    refine leave_kept callersEq ?_ height
    rwa [runs.labels_eq, labels_nil empty]

end

/-! ## Runs -/

/-- The label of the construct opened at a position: where it leads, how many values a branch
keeps, and how many values lie below it. -/
structure RightLabel {function : WasmFunction Ty Op} (body : Body function) (base opener : Nat)
    (label : Label) : Prop where
  height : ∃ frame, (body.state (opener + 1)).frames.head? = some frame ∧
    label.stackHeight = base + frame.initialSize
  loop : ∀ args, function.code[opener]? = some (.loop args) →
    ∃ type, body.context.blockType args.blockType = some type ∧
      label.arity = type.parameters.length ∧ label.continuation = opener + 1
  block : ∀ args, function.code[opener]? = some (.block args) →
    ∃ type finish, body.context.blockType args.blockType = some type ∧
      Closes (marks function.code) opener finish ∧
      label.arity = type.results.length ∧ label.continuation = finish
  if_ : ∀ args, function.code[opener]? = some (.if_ args) →
    ∃ type finish, body.context.blockType args.blockType = some type ∧
      Closes (marks function.code) opener finish ∧ label.arity = type.results.length ∧
      label.continuation = if args.elseIp.isSome then finish + 1 else finish

/-- An instruction about to run: the labels of its call are those of the constructs around it,
innermost first, and the function's; and if it is a branch that is taken, it goes to the label
its index names with that label's values. -/
structure Exact (runtime : Runtime Ty Op Value World) (machine : Machine Ty Op Value World)
    (body : Body machine.frame.function) (base : Nat) (below : List Label) : Prop where
  agrees : Agrees runtime machine.frame.function body.context
  labels_eq : machine.labels =
    (machine.frame.function.openers machine.frame.ip).map (body.label base) ++
      [⟨machine.frame.function.type.results.length, machine.frame.function.code.length - 1,
        base⟩] ++ below
  index_eq : machine.frame.labelIndex = below.length
  right : ∀ opener ∈ machine.frame.function.openers machine.frame.ip,
    RightLabel body base opener (body.label base opener)
  branches : ∀ index operands, branch runtime machine = some (index, operands) →
    BranchesTo machine (body.labels base machine.frame.ip) below index operands
      (step runtime machine)

/-- What may come of a call that started above some labels and callers: it runs on exact labels,
or it is left, and the labels are those from before the call. -/
def Exactly (runtime : Runtime Ty Op Value World) (callers : List (Activation Ty Op))
    (bottom : List Label) : Outcome Ty Op Value World → Prop
  | .running machine =>
    (∃ body base below, Exact runtime machine body base below) ∨ Left callers bottom machine
  | .finished labels _ _ => labels = bottom
  | .trapped => True
  | .crashed => False

theorem Body.right_label {body : Body fn}
    {base opener : Nat} (opens : (marks fn.code)[opener]? = some .opens) :
    RightLabel body base opener (body.label base opener) := by
  obtain ⟨args, filled, type, init, isConstruct⟩ := body.construct_cases opens
  rcases isConstruct with ⟨construct, codeHere⟩ | ⟨construct, codeHere⟩ | ⟨construct, codeHere⟩
  all_goals
    obtain ⟨insn, parsedHere, hasArgs⟩ := construct.parsed_at
    obtain ⟨_, _, _, -, enters⟩ := construct.enters
    obtain ⟨finish, closes, endIp⟩ := body.end_patched parsedHere hasArgs
    have blockType : body.context.blockType filled.blockType = some type := by
      rw [enters.filled]
      exact enters.blockType
    refine ⟨⟨_, by rw [enters.frames]; rfl, by rw [construct.label_eq]⟩, ?_, ?_, ?_⟩
    -- the instruction is of one kind only
    all_goals
      intro other isThere
      rw [codeHere] at isThere
      cases isThere
    rw [construct.label_eq, construct.target_eq]
  · rw [construct.no_else (by simp)] at endIp
    rw [body.marks_code]
    exact ⟨type, finish, blockType, closes, rfl, endIp⟩
  · exact ⟨type, blockType, rfl, rfl⟩
  · have sameElse : filled.elseIp = args.elseIp := by rw [enters.filled]
    rw [body.marks_code, sameElse]
    refine ⟨type, finish, blockType, closes, rfl, endIp.trans ?_⟩
    split_ifs <;> rfl

variable {callers : List (Activation Ty Op)} {bottom : List Label} {vm : Machine Ty Op Value World}

theorem Inside.exact (isInside : Inside runtime callers bottom vm) :
    ∃ body base below, Exact runtime vm body base below := by
  obtain ⟨nested, body, base, below, -, runs, -⟩ := isInside
  refine ⟨body, base, below, runs.agrees, runs.labels_eq, runs.index_eq, ?_, ?_⟩
  · intro opener mem
    obtain ⟨idx, found⟩ := mem_iff_getElem?.mp mem
    exact Body.right_label (Body.opener_opens runs.placed.within found)
  · intro idx operands taken
    exact runs.branch_step taken

theorem Kept.exactly (kept : Kept runtime callers bottom outcome) :
    Exactly runtime callers bottom outcome := by
  cases outcome with
  | running => exact kept.imp_left Inside.exact
  | finished | crashed => exact kept
  | trapped => trivial

theorem Left.not_careful (hasLeft : Left callers bottom vm) :
    ¬ careful runtime callers.length vm = true := by
  intro isCareful
  obtain ⟨caller, callersEq, -⟩ := hasLeft.caller
  have within := (careful_spec isCareful).1
  rw [callersEq, length_cons] at within
  omega

theorem run_kept (linked : Linked runtime)
    (accepted : Accepted runtime fn) {labels : List Label} {vals : List Value} {world : World}
    (run : Execution (nextMachine runtime)
      (fun vm _ => careful runtime callers.length vm = true)
      (entered fn callers labels vals world) vm) :
    Kept runtime callers labels (.running vm) := by
  refine run.invariant (fun vm => Kept runtime callers labels (.running vm)) ?_ ?_
  · have waits : Waits runtime labels [] labels vals.length fn.type.results.length := rfl
    exact entered_kept accepted waits rfl
  · intro vm _ following kept isCareful stepped
    rcases kept with isInside | hasLeft
    · have stepKept := step_kept linked isInside isCareful
      unfold nextMachine at stepped
      split at stepped
      · rename_i there isThere
        cases stepped
        rwa [isThere] at stepKept
      · cases stepped
    · exact absurd isCareful hasLeft.not_careful

def constantContext : Context Unit Nat where
  i32 := ()
  isSubtypeOf _ _ := true
  types := []
  functions := []
  pops _ := 0
  pushes _ := 1
  check _ _ := some [some ()]
  check_length := by
    rintro _ _ _ ⟨⟩
    rfl

def constantRuntime : Runtime Unit Nat Nat Unit where
  functions := []
  pops _ := 0
  perform constant _ world := some ([constant], world)
  hostCall _ _ _ := none
  resolve _ _ := none
  setFrame _ _ world := world
  unwind world := world
  isZero value := value == 0
  toU32 value := value
  nostack := true

/-- `block (if (i32.const c) (then (br 0)) (else)) (br 0) end` -/
def branchOut (condition : Nat) : List (Decoded Unit Nat) :=
  [⟨.block ⟨.empty, 0, none, 0, 0⟩, rfl⟩, ⟨.other condition, rfl⟩,
    ⟨.if_ ⟨.empty, 0, none, 0, 0⟩, rfl⟩, ⟨.br 0 true, rfl⟩, ⟨.structuredElse, rfl⟩,
    ⟨.structuredEnd, rfl⟩, ⟨.br 0 true, rfl⟩, ⟨.structuredEnd, rfl⟩, ⟨.structuredEnd, rfl⟩]

def branchOutFunction (condition : Nat) : WasmFunction Unit Nat where
  type := ⟨[], []⟩
  types := []
  addresses := []
  code := [.block ⟨.empty, 7, none, 0, 0⟩, .other condition, .if_ ⟨.empty, 6, some 5, 0, 0⟩,
    .br 0 false, .structuredElse, .structuredEnd, .br 0 false, .structuredEnd, .endExpression]

theorem constant_runtime_linked : Linked constantRuntime where
  bodies := by
    intro addr fn found
    cases found
  hosts := by
    intro addr type arguments world results next found
    cases found

theorem branch_out_accepted {condition : Nat} :
    Accepted constantRuntime (branchOutFunction condition) := by
  refine ⟨constantContext, branchOut condition, _, rfl, rfl, rfl, ?_, fun _ => rfl, ?_⟩
  · intro idx type found
    cases found
  · rintro op taken world results next - ⟨⟩
    rfl

end Ladybone.Wasm.Control
