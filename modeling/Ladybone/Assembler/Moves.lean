import Ladybone.Assembler.Passes

/-!
# Merged moves

The peephole replaces a run of moves by one instruction. Leaving out a repeated move is right
when nothing happened to it in between: a third move that repeats the first one is needed again
when the second one wrote its source or its destination.
-/

namespace Ladybone.Assembler

open Support.Simulation List Function

section
variable {Op ι Value World Effect : Type} [DecidableEq ι] {first : ι × ι} {insn : Instruction Op ι}

def applyMoves (moves : List (ι × ι)) (values : ι → Value) : ι → Value :=
  moves.foldl (fun values entry => move values entry.1 entry.2) values

def SameMoves (moves others : List (ι × ι)) : Prop :=
  ∀ (Value : Type) (values : ι → Value), applyMoves moves values = applyMoves others values

/-- The second move writes the source or the destination of the first one with another value. -/
def Clobbers (first second : ι × ι) : Prop :=
  first.1 ≠ first.2 ∧ (second.1 = first.1 ∨ second.1 = first.2) ∧ second.2 ≠ first.1 ∧
    second.2 ≠ first.2

instance (first second : ι × ι) : Decidable (Clobbers first second) :=
  inferInstanceAs (Decidable (_ ∧ _))

theorem move_of_eq {vals : ι → Value} {dst src : ι} (same : vals dst = vals src) :
    move vals dst src = vals := by
  rw [move, ← same, update_eq_self]

theorem move_dst {vals : ι → Value} {dst src : ι} : move vals dst src dst = vals src :=
  update_self _ _ _

theorem move_other {vals : ι → Value} {dst other : ι} {src : ι} (different : other ≠ dst) :
    move vals dst src other = vals other :=
  update_of_ne different _ _

theorem move_src {vals : ι → Value} {dst src : ι} : move vals dst src src = vals src := by
  by_cases same : src = dst
  · rw [same, move_dst]
  · exact move_other same

theorem move_move {vals : ι → Value} {dst src : ι} :
    move (move vals dst src) dst src = move vals dst src :=
  move_of_eq (by rw [move_dst, move_src])

theorem repeated_move_iff (first second : ι × ι) :
    SameMoves [first, second, first] [first, second] ↔ ¬ Clobbers first second := by
  obtain ⟨dst₁, src₁⟩ := first
  obtain ⟨dst₂, src₂⟩ := second
  constructor
  · rintro same ⟨moves, written, notDst, notSrc⟩
    -- only the source of the second move holds `true`
    have equal := congrFun (same Bool fun operand => decide (operand = src₂)) dst₁
    simp only [applyMoves, foldl_cons, foldl_nil] at equal
    rw [move_dst] at equal
    rcases written with rfl | rfl
    · rw [move_dst, move_other (Ne.symm moves), move_other (Ne.symm moves),
        move_other notDst] at equal
      simp [Ne.symm notSrc] at equal
    · rw [move_dst, move_other moves, move_dst, move_other notDst] at equal
      simp [Ne.symm notSrc] at equal
  · intro harmless Value vals
    simp only [applyMoves, foldl_cons]
    apply move_of_eq
    simp only [Clobbers, not_and, not_not] at harmless
    by_cases moves : dst₁ = src₁
    · rw [moves]
    by_cases onDst : dst₂ = dst₁
    · subst onDst
      rw [move_dst, move_other (Ne.symm moves), move_src]
      by_cases fromDst : src₂ = dst₂
      · rw [fromDst, move_dst]
      · rw [harmless moves (.inl rfl) fromDst, move_src]
    by_cases onSrc : dst₂ = src₁
    · subst onSrc
      rw [move_dst, move_other moves, move_dst]
      by_cases fromDst : src₂ = dst₁
      · rw [fromDst, move_dst]
      · rw [harmless moves (.inr rfl) fromDst, move_src]
    rw [move_other (Ne.symm onDst), move_other (Ne.symm onSrc), move_dst, move_src]

/-! ## What the peephole does to a block -/

/-- The peephole leaves out a third move that is needed again. -/
def dropsClobbered : Option (ι × ι) → List (Instruction Op ι) → Bool
  | none, [] => false
  | none, .mov dst src :: rest => dropsClobbered (some (dst, src)) rest
  | none, _ :: rest => dropsClobbered none rest
  | some (dst₁, src₁), .mov dst₂ src₂ :: rest =>
    if dst₁ = dst₂ ∧ src₁ = src₂ then dropsClobbered (some (dst₁, src₁)) rest
    else
      match rest with
      | .mov dst₃ src₃ :: rest =>
        decide (dst₃ = dst₁ ∧ src₃ = src₁ ∧ Clobbers (dst₁, src₁) (dst₂, src₂)) ||
          dropsClobbered none rest
      | rest => dropsClobbered none rest
  | some _, _ :: rest => dropsClobbered none rest
  | some _, [] => false

def Instruction.ofMove (entry : ι × ι) : Instruction Op ι := .mov entry.1 entry.2

open Instruction

def Instruction.moves : Instruction Op ι → Option (List (ι × ι))
  | .mov dst src => some [(dst, src)]
  | .mov2 dst₁ src₁ dst₂ src₂ => some [(dst₁, src₁), (dst₂, src₂)]
  | .mov3 dst₁ src₁ dst₂ src₂ dst₃ src₃ => some [(dst₁, src₁), (dst₂, src₂), (dst₃, src₃)]
  | _ => none

/-- A block before and after the peephole: some runs of moves became one instruction with the
same effect. -/
inductive Merged : List (Instruction Op ι) → List (Instruction Op ι) → Prop
  | nil : Merged [] []
  | keep (instruction : Instruction Op ι) {rest merged : List (Instruction Op ι)}
      (later : Merged rest merged) : Merged (instruction :: rest) (instruction :: merged)
  | group {first : ι × ι} {more moves : List (ι × ι)} {instruction : Instruction Op ι}
      {rest merged : List (Instruction Op ι)} (is : instruction.moves = some moves)
      (same : SameMoves (first :: more) moves) (later : Merged rest merged) :
      Merged ((first :: more).map Instruction.ofMove ++ rest) (instruction :: merged)

theorem SameMoves.duplicate {more moves : List (ι × ι)}
    (same : SameMoves (first :: more) moves) : SameMoves (first :: first :: more) moves := by
  intro Value vals
  rw [← same Value vals]
  simp [applyMoves, move_move]

theorem Merged.duplicate {rest merged : List (Instruction Op ι)}
    (later : Merged (.ofMove first :: rest) merged) :
    Merged (.ofMove first :: .ofMove first :: rest) merged := by
  generalize whole : ofMove first :: rest = insns at later
  cases later with
  | nil => cases whole
  | keep _ later =>
    obtain ⟨rfl, rfl⟩ := List.cons.inj whole
    have twice : SameMoves [first, first] [first] := SameMoves.duplicate fun _ _ => rfl
    have grouped : Merged ([first, first].map ofMove ++ _) (.ofMove first :: _) :=
      .group rfl twice later
    exact grouped
  | @group head more _ _ _ _ is same later =>
    obtain ⟨equal, rfl⟩ := List.cons.inj whole
    obtain rfl : first = head := Prod.ext (mov.inj equal).1 (mov.inj equal).2
    have grouped : Merged ((first :: first :: more).map ofMove ++ _) _ :=
      .group is same.duplicate later
    exact grouped

theorem same_moves_of_repeated {second third : ι × ι} (repeated : third = first ∨ third = second)
    (harmless : ¬ (third = first ∧ Clobbers first second)) :
    SameMoves [first, second, third] [first, second] := by
  rcases repeated with rfl | rfl
  · exact (repeated_move_iff third second).mpr fun clobbers => harmless ⟨rfl, clobbers⟩
  · intro Value vals
    simp [applyMoves, move_move]

theorem drops_clobbered_of_not_mov {pending : Option (ι × ι)}
    (notMov : ∀ dst src, insn = .mov dst src → False) (rest : List (Instruction Op ι)) :
    dropsClobbered pending (insn :: rest) = dropsClobbered none rest := by
  cases insn with
  | mov dst src => exact (notMov dst src rfl).elim
  | _ => cases pending <;> rfl

theorem drops_clobbered_same {dst src : ι} {rest : List (Instruction Op ι)} :
    dropsClobbered (some (dst, src)) (.mov dst src :: rest) =
      dropsClobbered (some (dst, src)) rest := by
  rw [dropsClobbered.eq_def]
  exact if_pos ⟨rfl, rfl⟩

theorem drops_clobbered_three {dst₁ src₁ dst₂ src₂ : ι} (different : ¬ (dst₁ = dst₂ ∧ src₁ = src₂))
    {dst₃ src₃ : ι} {rest : List (Instruction Op ι)} :
    dropsClobbered (some (dst₁, src₁)) (.mov dst₂ src₂ :: .mov dst₃ src₃ :: rest) =
      (decide (dst₃ = dst₁ ∧ src₃ = src₁ ∧ Clobbers (dst₁, src₁) (dst₂, src₂)) ||
        dropsClobbered none rest) := by
  exact if_neg different

theorem drops_clobbered_two {dst₁ src₁ dst₂ src₂ : ι}
    (different : ¬ (dst₁ = dst₂ ∧ src₁ = src₂)) {rest : List (Instruction Op ι)}
    (notMov : ∀ dst src later, rest = .mov dst src :: later → False) :
    dropsClobbered (some (dst₁, src₁)) (.mov dst₂ src₂ :: rest) = dropsClobbered none rest := by
  rw [dropsClobbered.eq_def]
  dsimp only
  rw [if_neg different]
  split
  · exact (notMov _ _ _ rfl).elim
  · rfl

theorem merge_movs_merged {pending : Option (ι × ι)} {insns : List (Instruction Op ι)}
    (harmless : dropsClobbered pending insns = false) :
    Merged (pending.toList.map Instruction.ofMove ++ insns) (mergeMovs pending insns) := by
  fun_induction mergeMovs pending insns with
  | case1 => exact .nil
  | case2 dst src rest ih => exact ih (by simpa only [dropsClobbered] using harmless)
  | case3 insn rest notMov ih =>
    rw [drops_clobbered_of_not_mov notMov] at harmless
    exact .keep insn (ih harmless)
  | case4 dst₁ src₁ dst₂ src₂ rest equal ih =>
    obtain ⟨rfl, rfl⟩ := equal
    rw [drops_clobbered_same] at harmless
    exact Merged.duplicate (ih harmless)
  | case5 dst₁ src₁ dst₂ src₂ different dst₃ src₃ rest mov2IsDup mov3IsDup duplicates ih =>
    exact absurd ⟨duplicates.1.1.symm, duplicates.1.2.symm⟩ different
  | case6 dst₁ src₁ dst₂ src₂ different dst₃ src₃ rest mov2IsDup mov3IsDup _ duplicate ih =>
    exact absurd ⟨duplicate.1.symm, duplicate.2.symm⟩ different
  | case7 dst₁ src₁ dst₂ src₂ different dst₃ src₃ rest mov2IsDup mov3IsDup _ _ duplicate ih =>
    rw [drops_clobbered_three different, Bool.or_eq_false_iff, decide_eq_false_iff_not] at harmless
    have same : SameMoves [(dst₁, src₁), (dst₂, src₂), (dst₃, src₃)]
        [(dst₁, src₁), (dst₂, src₂)] := by
      apply same_moves_of_repeated
      · rwa [Prod.mk.injEq, Prod.mk.injEq]
      · rw [Prod.mk.injEq, and_assoc]
        exact harmless.1
    have grouped : Merged ([(dst₁, src₁), (dst₂, src₂), (dst₃, src₃)].map ofMove ++ rest)
        (.mov2 dst₁ src₁ dst₂ src₂ :: mergeMovs none rest) := .group rfl same (ih harmless.2)
    exact grouped
  | case8 dst₁ src₁ dst₂ src₂ different dst₃ src₃ rest mov2IsDup mov3IsDup _ _ _ ih =>
    rw [drops_clobbered_three different, Bool.or_eq_false_iff] at harmless
    have grouped : Merged ([(dst₁, src₁), (dst₂, src₂), (dst₃, src₃)].map ofMove ++ rest)
        (.mov3 dst₁ src₁ dst₂ src₂ dst₃ src₃ :: mergeMovs none rest) :=
      .group rfl (fun _ _ => rfl) (ih harmless.2)
    exact grouped
  | case9 dst₁ src₁ dst₂ src₂ different rest notMov ih =>
    rw [drops_clobbered_two different notMov] at harmless
    have grouped : Merged ([(dst₁, src₁), (dst₂, src₂)].map ofMove ++ rest)
        (.mov2 dst₁ src₁ dst₂ src₂ :: mergeMovs none rest) :=
      .group rfl (fun _ _ => rfl) (ih harmless)
    exact grouped
  | case10 dst₁ src₁ insn rest notMov ih =>
    rw [drops_clobbered_of_not_mov notMov] at harmless
    exact .keep _ (.keep insn (ih harmless))
  | case11 dst₁ src₁ => exact .keep _ .nil

omit [DecidableEq ι] in
theorem map_not_mov {κ : Type} {rename : ι → κ} (notMov : ∀ dst src, insn = .mov dst src → False)
    (dst src : κ) (is : insn.mapOperands rename = .mov dst src) : False := by
  cases insn with
  | mov dst src => exact notMov dst src rfl
  | _ => cases is

theorem drops_clobbered_map {κ : Type} [DecidableEq κ] {rename : ι → κ}
    (injective : Function.Injective rename) (pending : Option (ι × ι))
    {insns : List (Instruction Op ι)} : dropsClobbered (pending.map (Prod.map rename rename))
      (insns.map (Instruction.mapOperands rename)) =
      dropsClobbered pending insns := by
  fun_induction dropsClobbered pending insns with
  | case1 => rfl
  | case2 dst src rest ih => exact ih
  | case3 insn rest notMov ih =>
    rwa [map_cons, drops_clobbered_of_not_mov (map_not_mov notMov)]
  | case4 dst₁ src₁ dst₂ src₂ rest equal ih =>
    obtain ⟨rfl, rfl⟩ := equal
    exact drops_clobbered_same.trans ih
  | case5 dst₁ src₁ dst₂ src₂ different dst₃ src₃ rest ih =>
    have still : ¬ (rename dst₁ = rename dst₂ ∧ rename src₁ = rename src₂) := by
      rwa [injective.eq_iff, injective.eq_iff]
    rw [← ih]
    refine (drops_clobbered_three still).trans ?_
    simp only [injective.eq_iff, Clobbers, ne_eq]
    rfl
  | case6 dst₁ src₁ dst₂ src₂ different rest notMov ih =>
    have still : ¬ (rename dst₁ = rename dst₂ ∧ rename src₁ = rename src₂) := by
      rwa [injective.eq_iff, injective.eq_iff]
    refine (drops_clobbered_two still ?_).trans ih
    intro dst src later is
    obtain ⟨insn, others, rfl, isMov, -⟩ := map_eq_cons_iff.mp is
    exact map_not_mov (fun dst src is => notMov dst src others (by rw [is])) dst src isMov
  | case7 pending insn rest notMov ih =>
    rwa [map_cons, drops_clobbered_of_not_mov
      (map_not_mov fun dst src => notMov pending.1 pending.2 dst src rfl)]
  | case8 => rfl

/-! ## Running merged blocks -/

theorem run_moves {sem : Semantics Op Value World Effect} {frame : Frame ι}
    {blocks : List (Block Op ι)} {index : Nat} {moves : List (ι × ι)}
    {rest : List (Instruction Op ι)} {vals : ι → Value} {world : World} :
    run (blockStep sem frame blocks) moves.length
        ⟨index, moves.map Instruction.ofMove ++ rest, vals, world⟩ =
      ([], .running ⟨index, rest, applyMoves moves vals, world⟩) := by
  induction moves generalizing vals with
  | nil => rfl
  | cons first more ih =>
    have stepped : blockStep sem frame blocks
        ⟨index, (first :: more).map ofMove ++ rest, vals, world⟩ =
        .step [] ⟨index, more.map ofMove ++ rest, move vals first.1 first.2, world⟩ := rfl
    rw [length_cons, run_succ_step stepped, ih]
    rfl

omit [DecidableEq ι] in
theorem Instruction.map_operands_id (insn : Instruction Op ι) : insn.mapOperands id = insn := by
  cases insn <;> simp [mapOperands]

omit [DecidableEq ι] in
theorem Frame.map_id (frame : Frame ι) : frame.map id = frame := by
  simp [Frame.map]

omit [DecidableEq ι] in
theorem agree_id_iff {vals others : ι → Value} :
    Agree (fun _ => True) id vals others ↔ vals = others :=
  ⟨fun agree => funext fun operand => agree operand trivial,
    fun same operand _ => congrFun same operand⟩

theorem merged_simulates (sem : Semantics Op Value World Effect) (frame : Frame ι)
    {blocks others : List (Block Op ι)} (blocksMatch : BlocksMatch Merged blocks others) :
    Simulates (blockStep sem frame blocks) (blockStep sem frame others)
      (Config.Matched Merged (fun _ => True) id) (Result.Renamed (fun _ => True) id)
      (fun _ => 0) := by
  rintro ⟨index, rest, vals, world⟩ ⟨otherIndex, otherRest, renamed, otherWorld⟩
    ⟨rfl, merged, agree, rfl⟩
  dsimp only at merged agree
  rw [← congrArg (blockStep sem · others) frame.map_id]
  cases merged with
  | nil =>
    exact Alike.progress (leave_alike frame agree blocksMatch (fun _ _ => trivial))
  | keep insn later =>
    have executed := execute_renamed sem frame injective_id agree
      (fun _ => trivial) insn (fun _ _ => trivial) otherWorld
    rw [insn.map_operands_id] at executed
    exact Alike.progress (proceed_alike frame injective_id blocksMatch executed otherIndex later)
  | @group first more moves insn rest merged is same later =>
    obtain rfl := agree_id_iff.mp agree
    have stepped : blockStep sem (frame.map id) others
        ⟨otherIndex, insn :: merged, vals, otherWorld⟩ =
        .step [] ⟨otherIndex, merged, applyMoves moves vals, otherWorld⟩ := by
      cases insn <;> cases is <;> simp [blockStep, proceed, execute, applyMoves]
    refine .both run_moves (run_one stepped) ⟨rfl, later, ?_, rfl⟩
    exact agree_id_iff.mpr (same Value vals)

end
end Ladybone.Assembler
