import Ladybone.Wasm.Control.Checked

/-!
# Accepted function bodies

The states of the validator along a function body, and how its frames correspond to the
constructs that enclose each position: the frame of a construct remembers the types and the
height at its opening, and the frames around it are those at the opening, unchanged.
-/

namespace Ladybone.Wasm.Control

open Support.Bracketing Option

variable {Ty Op : Type} {ctx : Context Ty Op}

/-- Frames from the inside out start at lower and lower heights. -/
def Ordered : List (Frame Ty) → Nat → Prop
  | [], _ => True
  | frame :: outer, size => frame.initialSize ≤ size ∧ Ordered outer frame.initialSize

theorem Ordered.mono {frames : List (Frame Ty)} {size larger : Nat}
    (ordered : Ordered frames size) (upper : size ≤ larger) : Ordered frames larger := by
  cases frames with
  | nil => trivial
  | cons => exact ⟨Nat.le_trans ordered.1 upper, ordered.2⟩

/-! ## Frames and enclosing constructs -/

section
variable (parsed : List (Instruction Ty Op)) (state : Nat → Checked Ty)

/-- The frame of the construct opened at a position: its types and height as when it was
opened, and the frame of an `if` may be past its `else`. -/
structure Opened (opener : Nat) (frame : Frame Ty) : Prop where
  first : ∃ original, (state (opener + 1)).frames = original :: (state opener).frames ∧
    original.unreachable = false ∧ frame.type = original.type ∧
    frame.initialSize = original.initialSize ∧
    (frame.kind = original.kind ∨
      original.kind = .if_ ∧ frame.kind = .else_ ∧ ∃ position, ElseOf parsed opener position)

def Tracks (type : FunctionType Ty) : List Nat → List (Frame Ty) → Prop
  | [], frames => ∃ frame, frames = [frame] ∧ frame.type = type ∧ frame.kind = .function ∧
      frame.initialSize = 0
  | opener :: around, frames => ∃ frame, frames = frame :: (state opener).frames ∧
      Opened parsed state opener frame ∧ Tracks type around (state opener).frames

variable {parsed state} {type : FunctionType Ty}

theorem Tracks.set_unreachable {openers : List Nat} {frame : Frame Ty} {outer : List (Frame Ty)}
    (tracks : Tracks parsed state type openers (frame :: outer)) :
    Tracks parsed state type openers ({ frame with unreachable := true } :: outer) := by
  cases openers with
  | nil =>
    obtain ⟨_, same, isType, kind, init⟩ := tracks
    obtain ⟨rfl, rfl⟩ := List.cons.inj same
    exact ⟨_, rfl, isType, kind, init⟩
  | cons =>
    obtain ⟨_, same, opened, later⟩ := tracks
    obtain ⟨rfl, rfl⟩ := List.cons.inj same
    exact ⟨_, rfl, ⟨opened.first⟩, later⟩

/-- Frames that correspond to the open constructs, and lie at ordered heights. -/
def Sound (parsed : List (Instruction Ty Op)) (state : Nat → Checked Ty) (type : FunctionType Ty)
    (openers : List Nat) (checked : Checked Ty) : Prop :=
  Tracks parsed state type openers checked.frames ∧ Ordered checked.frames checked.stack.length

section
variable {openers : List Nat} {frame : Frame Ty} {outer : List (Frame Ty)}
  {stack : List (StackEntry Ty)} {next : Checked Ty}
  (sound : Sound parsed state type openers ⟨frame :: outer, stack⟩)

include sound

theorem Sound.replaces {pops pushes : Nat}
    (replaces : Replaces frame stack next outer pops pushes) :
    Sound parsed state type openers next := by
  unfold Sound
  rw [replaces.frames]
  exact ⟨sound.1, replaces.lower, sound.2.2⟩

theorem Sound.stops {needs : Nat} (stops : Stops frame stack next outer needs) :
    Sound parsed state type openers next := by
  unfold Sound
  rw [stops.frames, stops.height]
  exact ⟨sound.1.set_unreachable, Nat.le_refl _, sound.2.2⟩

theorem Sound.enters {kind : FrameKind} {conditions init ip : Nat}
    {args filled : StructuredArgs Ty} {block : FunctionType Ty}
    (here : state ip = ⟨frame :: outer, stack⟩)
    (enters : Enters ctx kind conditions frame stack (state (ip + 1)) outer args filled block
      init) : Sound parsed state type (ip :: openers) (state (ip + 1)) := by
  refine ⟨⟨⟨block, kind, init, false⟩, ?_, ⟨⟨block, kind, init, false⟩, ?_, rfl, rfl, rfl,
    .inl rfl⟩, here ▸ sound.1⟩, ?_⟩
  iterate 2 rw [enters.frames, here]
  rw [enters.frames, enters.height]
  exact ⟨Nat.le_add_right _ _, enters.lower, sound.2.2⟩

theorem Sound.elses {ip : Nat} (isElse : parsed[ip]? = some .structuredElse)
    (around : openers = enclosing (marks parsed) ip) (inside : ip ≤ parsed.length)
    (elses : Elses frame stack next outer) : Sound parsed state type openers next := by
  obtain ⟨tracks, -, ordered⟩ := sound
  refine ⟨?_, ?_⟩
  · rw [elses.frames]
    cases openers with
    | nil =>
      obtain ⟨_, same, -, kind, -⟩ := tracks
      obtain ⟨rfl, -⟩ := List.cons.inj same
      rw [elses.kind] at kind
      cases kind
    | cons opener =>
      obtain ⟨_, same, opened, later⟩ := tracks
      obtain ⟨rfl, rfl⟩ := List.cons.inj same
      obtain ⟨original, frames, reachable, sameType, sameSize, kind⟩ := opened.first
      have enclosed := (enclosing_eq_cons (by rwa [length_marks]) around.symm).2.2
      have belongs : ElseOf parsed opener ip := ⟨isElse, by rw [← around, enclosed]⟩
      have isIf : original.kind = .if_ := by
        rcases kind with kind | ⟨isIf, -⟩
        · rw [← kind, elses.kind]
        · exact isIf
      exact ⟨_, rfl, ⟨original, frames, reachable, sameType, sameSize,
        .inr ⟨isIf, rfl, ip, belongs⟩⟩, later⟩
  · rw [elses.frames, elses.height]
    exact ⟨Nat.le_add_right _ _, ordered⟩

theorem Sound.ends (ends : Ends frame stack next outer) (notEmpty : next.frames ≠ []) :
    Sound parsed state type openers.tail next := by
  obtain ⟨tracks, -, ordered⟩ := sound
  cases openers with
  | nil =>
    obtain ⟨_, same, -⟩ := tracks
    rw [ends.frames, (List.cons.inj same).2] at notEmpty
    exact absurd rfl notEmpty
  | cons =>
    obtain ⟨_, same, -, later⟩ := tracks
    obtain ⟨rfl, rfl⟩ := List.cons.inj same
    refine ⟨?_, ?_⟩
    · rwa [ends.frames]
    · rw [ends.frames, ends.height]
      exact ordered.mono (Nat.le_add_right _ _)

end
end

/-! ## Accepted bodies -/

variable [DecidableEq Ty]

structure Analysis (context : Context Ty Op) (type : FunctionType Ty)
    (parsed code : List (Instruction Ty Op)) (state : Nat → Checked Ty) : Prop where
  start : state 0 = ⟨[⟨type, .function, 0, false⟩], []⟩
  length_eq : code.length = parsed.length
  stepped : ∀ (ip : Nat) (instruction : Instruction Ty Op), parsed[ip]? = some instruction →
    ∃ filled, code[ip]? = some filled ∧
      context.validate instruction (state ip) = some (filled, state (ip + 1))
  results : context.validateResults type (state parsed.length) = true

variable {type : FunctionType Ty} {parsed code : List (Instruction Ty Op)}
  {state : Nat → Checked Ty}

theorem validate_all_states {checked final : Checked Ty}
    (valid : ctx.validateAll parsed checked = some (code, final)) :
    ∃ state : Nat → Checked Ty, state 0 = checked ∧ state parsed.length = final ∧
      code.length = parsed.length ∧
      ∀ (ip : Nat) (insn : Instruction Ty Op), parsed[ip]? = some insn →
        ∃ filled, code[ip]? = some filled ∧
          ctx.validate insn (state ip) = some (filled, state (ip + 1)) := by
  induction parsed generalizing checked code with
  | nil =>
    cases valid
    exact ⟨fun _ => final, rfl, rfl, rfl, by simp⟩
  | cons insn _ ih =>
    obtain ⟨⟨filled, next⟩, one, valid⟩ := bind_eq_some_iff.mp valid
    obtain ⟨⟨later, last⟩, more, valid⟩ := bind_eq_some_iff.mp valid
    cases valid
    obtain ⟨state, first, final, length, steps⟩ := ih more
    refine ⟨fun ip => ip.casesOn checked state, rfl, final, by simp [length], ?_⟩
    intro ip insn here
    cases ip with
    | zero =>
      cases here
      refine ⟨filled, rfl, one.trans ?_⟩
      rw [← first]
    | succ ip => exact steps ip insn here

theorem validate_function_analysis
    (accepted : ctx.validateFunction type parsed = some code) :
    ∃ state, Analysis ctx type parsed code state := by
  obtain ⟨⟨filled, final⟩, all, accepted⟩ := bind_eq_some_iff.mp accepted
  dsimp only at accepted
  split_ifs at accepted with results
  cases accepted
  obtain ⟨state, start, last, length, steps⟩ := validate_all_states all
  exact ⟨state, start, length, steps, last ▸ results⟩

theorem sound_at (analysis : Analysis ctx type parsed code state)
    (last : parsed[parsed.length - 1]? = some .endExpression) {ip : Nat}
    (inside : ip ≤ parsed.length) :
    Sound parsed state type (enclosing (marks parsed) ip) (state ip) := by
  induction ip with
  | zero =>
    rw [analysis.start]
    exact ⟨⟨_, rfl, rfl, rfl, rfl⟩, Nat.le_refl _, trivial⟩
  | succ ip ih =>
    have sound := ih (Nat.le_of_succ_le inside)
    have parsedHere := List.getElem?_eq_getElem (Nat.lt_of_succ_le inside)
    obtain ⟨filled, codeHere, valid⟩ := analysis.stepped ip _ parsedHere
    generalize parsed[ip] = insn at parsedHere valid
    have marked : (marks parsed)[ip]? = some insn.mark := by
      rw [marks, List.getElem?_map, parsedHere, map_some]
    rw [enclosing_succ marked]
    rcases here : state ip with ⟨frames, stack⟩
    rw [here] at valid sound
    cases frames with
    | nil => cases valid
    | cons =>
      have spec := validate_spec sound.2.1 valid
      cases insn with
      | block | loop | if_ =>
        obtain ⟨_, _, _, -, enters⟩ := spec
        exact sound.enters here enters
      | structuredElse =>
        exact sound.elses parsedHere rfl (Nat.le_of_succ_le inside) spec.2
      | structuredEnd =>
        refine sound.ends spec.2 ?_
        -- the synthetic end stands behind it and was validated too
        have notLast : ip ≠ parsed.length - 1 := by
          rintro rfl
          rw [last] at parsedHere
          cases parsedHere
        have next := List.getElem?_eq_getElem (by omega : ip + 1 < parsed.length)
        obtain ⟨_, -, valid⟩ := analysis.stepped (ip + 1) _ next
        intro empty
        rw [Context.validate, empty] at valid
        cases valid
      | br =>
        obtain ⟨_, _, -, -, stops, -⟩ := spec
        exact sound.stops stops
      | brIf =>
        obtain ⟨_, _, -, -, replaces, -⟩ := spec
        exact sound.replaces replaces
      | brTable =>
        obtain ⟨_, -, -, -, stops⟩ := spec
        exact sound.stops stops
      | return_ =>
        obtain ⟨_, -, -, stops⟩ := spec
        exact sound.stops stops
      | unreachable => exact sound.stops spec.2
      | call | callIndirect =>
        obtain ⟨_, -, -, replaces⟩ := spec
        exact sound.replaces replaces
      | returnCall | returnCallIndirect =>
        obtain ⟨_, _, -, -, -, -, stops⟩ := spec
        exact sound.stops stops
      | other => exact sound.replaces spec.2
      | endExpression =>
        rwa [spec.2]

end Ladybone.Wasm.Control
