import Ladybone.Wasm.Control.Analysis
import Ladybone.Wasm.Control.Interpreter

/-!
# Lexical labels

The labels an instruction of an accepted body should run under: one for each construct whose
body encloses it, innermost first, and one for the function.
-/

namespace Ladybone.Wasm.Control

open Support.Bracketing List Option

variable {Ty Op : Type} {filled insn : Instruction Ty Op} {ip opener : Nat}
  {function : WasmFunction Ty Op} {frame : Frame Ty}

def WasmFunction.openers (function : WasmFunction Ty Op) (ip : Nat) : List Nat :=
  enclosing (marks function.code) ip

theorem WasmFunction.openers_succ (here : function.code[ip]? = some filled) :
    function.openers (ip + 1) = advance ip filled.mark (function.openers ip) := by
  refine enclosing_succ ?_
  rw [marks, getElem?_map, here, map_some]

theorem WasmFunction.openers_plain (here : function.code[ip]? = some filled)
    (plain : filled.mark = .plain) : function.openers (ip + 1) = function.openers ip := by
  rw [openers_succ here, plain]
  rfl

def WasmFunction.target (function : WasmFunction Ty Op) (opener : Nat) : Nat :=
  match function.code[opener]? with
  | some (.loop _) => opener + 1
  | some (.block args) => args.endIp
  | some (.if_ args) => args.endIp
  | _ => 0

theorem Spec.mark_eq {context : Context Ty Op} {outer : List (Frame Ty)}
    {stack : List (StackEntry Ty)} {next : Checked Ty}
    (spec : Spec context frame outer stack next insn filled) :
    filled.mark = insn.mark := by
  cases insn with
  | block | loop | if_ =>
    obtain ⟨_, _, _, rfl, -⟩ := spec
    rfl
  | br | brIf | returnCall | returnCallIndirect =>
    obtain ⟨_, _, rfl, -⟩ := spec
    rfl
  | brTable | return_ | call | callIndirect =>
    obtain ⟨_, rfl, -⟩ := spec
    rfl
  | structuredElse | structuredEnd | unreachable | other | endExpression => rw [spec.1]

section
variable {parsed : List (Instruction Ty Op)} {state : Nat → Checked Ty} {type : FunctionType Ty}
  {openers : List Nat} {frames : List (Frame Ty)} (tracks : Tracks parsed state type openers frames)

include tracks

theorem Tracks.at_opener {idx : Nat} (found : openers[idx]? = some opener) :
    ∃ frame, frames.drop idx = frame :: (state opener).frames ∧
      Opened parsed state opener frame := by
  induction openers generalizing idx frames with
  | nil => cases found
  | cons _ _ ih =>
    obtain ⟨frame, rfl, opened, later⟩ := tracks
    cases idx with
    | zero =>
      cases found
      exact ⟨frame, rfl, opened⟩
    | succ => exact ih later found

theorem Tracks.at_function : ∃ frame, frames.drop openers.length = [frame] ∧
    frame.type = type ∧ frame.kind = .function ∧ frame.initialSize = 0 := by
  induction openers generalizing frames with
  | nil => exact tracks
  | cons _ _ ih =>
    obtain ⟨frame, rfl, -, later⟩ := tracks
    exact ih later

theorem Tracks.length_eq : frames.length = openers.length + 1 := by
  obtain ⟨frame, last, -⟩ := tracks.at_function
  have sizes := congrArg List.length last
  rw [length_drop, length_singleton] at sizes
  omega

theorem Tracks.last {first : Frame Ty} (found : frames.getLast? = some first) :
    first.type = type := by
  obtain ⟨frame, last, isType, -⟩ := tracks.at_function
  have same : frames.getLast? = some frame := by
    rw [← take_append_drop openers.length frames, last, getLast?_concat]
  rw [same, some.injEq] at found
  rw [← found, isType]

end

theorem Ordered.initial_le {frames : List (Frame Ty)} {size idx : Nat} {target : Frame Ty}
    (ordered : Ordered frames size) (found : frames[idx]? = some target) :
    target.initialSize ≤ size := by
  induction frames generalizing size idx with
  | nil => cases found
  | cons _ _ ih =>
    cases idx with
    | zero =>
      cases found
      exact ordered.1
    | succ => exact Nat.le_trans (ih ordered.2 found) ordered.1

variable [DecidableEq Ty]

/-- A body the parser gave and the validator accepted, with the validator's state before each
instruction. -/
structure Body (function : WasmFunction Ty Op) where
  context : Context Ty Op
  inner : List (Instruction Ty Op)
  state : Nat → Checked Ty
  patched : Patched [] inner
  analysis : Analysis context function.type (inner ++ [.endExpression]) function.code state

namespace Body

variable {function : WasmFunction Ty Op} (body : Body function) {args : StructuredArgs Ty}

def parsed : List (Instruction Ty Op) := body.inner ++ [.endExpression]

theorem length_parsed : body.parsed.length = body.inner.length + 1 := by simp [parsed]

theorem length_code : function.code.length = body.inner.length + 1 :=
  body.analysis.length_eq.trans body.length_parsed

theorem extends_inner : Extends body.inner body.parsed .endExpression (fun _ => id) :=
  extends_append body.inner .endExpression

theorem last_parsed : body.parsed[body.parsed.length - 1]? = some .endExpression := by
  rw [length_parsed]
  exact body.extends_inner.last

theorem parsed_at (here : function.code[ip]? = some filled) :
    ∃ insn frame outer, body.parsed[ip]? = some insn ∧
      (body.state ip).frames = frame :: outer ∧
      Spec body.context frame outer (body.state ip).stack (body.state (ip + 1)) insn filled := by
  have inside := (List.getElem?_eq_some_iff.mp here).1
  rw [body.length_code, ← body.length_parsed] at inside
  have parsedHere := List.getElem?_eq_getElem inside
  obtain ⟨_, codeHere, validated⟩ := body.analysis.stepped ip _ parsedHere
  rw [here] at codeHere
  cases codeHere
  have sound := sound_at body.analysis body.last_parsed (Nat.le_of_lt inside)
  rcases stateHere : body.state ip with ⟨frames, stack⟩
  rw [stateHere] at validated sound
  cases frames with
  | nil => cases validated
  | cons frame outer =>
    exact ⟨_, frame, outer, parsedHere, rfl, validate_spec sound.2.1 validated⟩

theorem marks_code : marks function.code = marks body.parsed := by
  apply ext_getElem?
  intro ip
  rw [marks, marks, getElem?_map, getElem?_map]
  cases here : function.code[ip]? with
  | none =>
    rw [getElem?_eq_none_iff, body.length_code, ← body.length_parsed] at here
    rw [getElem?_eq_none here]
  | some =>
    obtain ⟨insn, _, _, parsedHere, -, spec⟩ := body.parsed_at here
    rw [parsedHere, map_some, map_some, spec.mark_eq]

theorem sound (inside : ip ≤ body.inner.length + 1) :
    Sound body.parsed body.state function.type (function.openers ip) (body.state ip) := by
  rw [← body.length_parsed] at inside
  rw [WasmFunction.openers, body.marks_code]
  exact sound_at body.analysis body.last_parsed inside

theorem openers_last : function.openers body.inner.length = [] := by
  rw [WasmFunction.openers, body.marks_code, body.extends_inner.enclosing_eq (Nat.le_refl _)]
  exact body.patched.stack_eq.symm

theorem else_patched (here : body.parsed[opener]? = some insn) (hasArgs : insn.args = some args) :
    ElsePatched body.parsed opener args := by
  rcases body.extends_inner.origin here hasArgs with ⟨before, _, there, hadArgs, rfl⟩ | ⟨-, no⟩
  · exact body.extends_inner.else_patched (by simp) rfl
      (body.patched.else_patched opener before _ there hadArgs)
  · cases no

theorem end_patched (here : body.parsed[opener]? = some insn) (hasArgs : insn.args = some args) :
    EndPatched body.parsed opener args := by
  rcases body.extends_inner.origin here hasArgs with ⟨before, _, there, hadArgs, rfl⟩ | ⟨-, no⟩
  · obtain ⟨finish, closes, endIp⟩ :=
      body.patched.end_patched opener before _ there hadArgs (not_mem_nil)
    exact ⟨finish, body.extends_inner.closes closes, endIp⟩
  · cases no

theorem eq_last (here : body.parsed[ip]? = some .endExpression) : ip = body.inner.length := by
  have inside := (List.getElem?_eq_some_iff.mp here).1
  rw [body.length_parsed] at inside
  rcases Nat.lt_succ_iff_lt_or_eq.mp inside with earlier | last
  · rw [parsed, List.getElem?_append_left earlier] at here
    exact absurd here (body.patched.not_synthetic ip)
  · exact last

end Body

/-! ## Frames and labels -/

namespace Body

variable {function : WasmFunction Ty Op} (body : Body function)

def label (base opener : Nat) : Label :=
  match (body.state (opener + 1)).frames with
  | frame :: _ => ⟨frame.labels.length, function.target opener, base + frame.initialSize⟩
  | [] => ⟨0, 0, base⟩

def labels (base ip : Nat) : List Label :=
  (function.openers ip).map (body.label base) ++
    [⟨function.type.results.length, function.code.length - 1, base⟩]

variable {body} {base ip idx other : Nat}

theorem label_eq (opened : Opened body.parsed body.state opener frame) :
    body.label base opener =
      ⟨frame.labels.length, function.target opener, base + frame.initialSize⟩ := by
  obtain ⟨original, frames, -, sameType, sameSize, kind⟩ := opened.first
  have sameLabels : frame.labels = original.labels := by
    unfold Frame.labels
    rw [sameType]
    rcases kind with same | ⟨isIf, isElse, -⟩
    · rw [same]
    · rw [isIf, isElse]
      rfl
  unfold label
  rw [frames, sameLabels, sameSize]

theorem labels_congr (same : function.openers other = function.openers ip) :
    body.labels base other = body.labels base ip := by
  unfold labels
  rw [same]

theorem labels_cons (opened : function.openers other = opener :: function.openers ip) :
    body.labels base other = body.label base opener :: body.labels base ip := by
  unfold labels
  rw [opened]
  rfl

theorem labels_nil (empty : function.openers ip = []) : body.labels base ip =
    [⟨function.type.results.length, function.code.length - 1, base⟩] := by
  unfold labels
  rw [empty]
  rfl

theorem openers_drop (inside : ip ≤ body.inner.length + 1)
    (found : (function.openers ip)[idx]? = some opener) :
    (function.openers ip).drop idx = opener :: function.openers opener := by
  obtain ⟨within, rfl⟩ := List.getElem?_eq_some_iff.mp found
  have split := drop_eq_getElem_cons within
  have whole := (take_append_drop idx (function.openers ip)).symm
  rw [split] at whole
  have around := (enclosing_eq_append (by rwa [length_marks, body.length_code]) whole).2.2
  rw [split, around]
  rfl

theorem labels_drop (inside : ip ≤ body.inner.length + 1)
    (found : (function.openers ip)[idx]? = some opener) :
    (body.labels base ip).drop idx = body.label base opener :: body.labels base opener := by
  have within := (List.getElem?_eq_some_iff.mp found).1
  unfold labels
  rw [List.drop_append_of_le_length (by rw [List.length_map]; omega), ← List.map_drop,
    openers_drop inside found]
  rfl

theorem labels_drop_all : (body.labels base ip).drop (function.openers ip).length =
    [⟨function.type.results.length, function.code.length - 1, base⟩] := by
  unfold labels
  rw [← length_map, drop_left]

/-- A branch finds the label of the frame the validator found. -/
theorem label_found {target : Frame Ty} (inside : ip ≤ body.inner.length + 1)
    (found : (body.state ip).frames[idx]? = some target) :
    ∃ label rest, (body.labels base ip).drop idx = label :: rest ∧
      label.arity = target.labels.length ∧ label.stackHeight = base + target.initialSize := by
  have tracks := (body.sound inside).1
  cases opened : (function.openers ip)[idx]? with
  | some =>
    obtain ⟨frame, dropped, isOpened⟩ := tracks.at_opener opened
    have same : (body.state ip).frames[idx]? = some frame := by
      rw [← head?_drop, dropped, head?_cons]
    rw [found, some.injEq] at same
    refine ⟨_, _, labels_drop inside opened, ?_, ?_⟩
    all_goals rw [label_eq isOpened, same]
  | none =>
    obtain ⟨frame, dropped, isType, kind, size⟩ := tracks.at_function
    have within := (List.getElem?_eq_some_iff.mp found).1
    rw [getElem?_eq_none_iff] at opened
    have last : idx = (function.openers ip).length := by
      rw [tracks.length_eq] at within
      omega
    have same : (body.state ip).frames[idx]? = some frame := by
      rw [last, ← head?_drop, dropped, head?_cons]
    rw [found, some.injEq] at same
    refine ⟨_, _, last ▸ labels_drop_all, ?_, ?_⟩
    · rw [same, Frame.labels, kind, isType]
      rfl
    · rw [same, size]
      rfl

end Body
end Ladybone.Wasm.Control
