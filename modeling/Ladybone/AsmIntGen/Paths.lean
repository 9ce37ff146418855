import Mathlib.Algebra.Order.BigOperators.Group.Finset
import Ladybone.AsmIntGen.Liveness

/-!
# Liveness along paths

The round-robin loop of `compute_liveness` ends, with the registers live before an instruction
that some path from there reads before anything on it defines or kills them.
-/

namespace Ladybone.AsmIntGen

open List Finset LiveSets

/-- A path from an instruction to one that reads the register, with nothing before that one
writing or destroying it. -/
inductive ReadOnPath (arch : Arch) (temps : Temps) (body : List AsmInstruction) (name : String) :
    Nat → Prop where
  | here {index : Nat} {insn : AsmInstruction} (found : body[index]? = some insn)
      (read : name ∈ readBy arch temps insn) : ReadOnPath arch temps body name index
  | behind {index next : Nat} {insn : AsmInstruction} (found : body[index]? = some insn)
      (kept : name ∉ writtenBy arch temps insn ∧ name ∉ killedBy arch temps insn)
      (goes : follows body index next) (later : ReadOnPath arch temps body name next) :
      ReadOnPath arch temps body name index

inductive UsedOnPath (flows : List Flow) (name : String) : Nat → Prop where
  | here {index : Nat} {flow : Flow} (found : flows[index]? = some flow)
      (used : name ∈ flow.useDef.uses) : UsedOnPath flows name index
  | behind {index successor : Nat} {flow : Flow} (found : flows[index]? = some flow)
      (kept : name ∉ flow.useDef.defs ∧ name ∉ flow.useDef.kills)
      (listed : successor ∈ flow.successors) (later : UsedOnPath flows name successor) :
      UsedOnPath flows name index

section
variable {arch : Arch} {temps : Temps} {body : List AsmInstruction} {computed : List Flow}
  {idx : Nat} {name : String} (analyzed : flows arch temps body = some computed)
include analyzed

theorem length_flows : computed.length = body.length := by
  rw [(mapM_some analyzed).1, length_zipIdx]

theorem insn_of_flow {flow : Flow} (found : computed[idx]? = some flow) :
    ∃ insn, body[idx]? = some insn ∧ Describes arch temps insn flow.useDef ∧
      ∀ next, next ∈ flow.successors ↔ follows body idx next := by
  have inside := (List.getElem?_eq_some_iff.mp found).1
  rw [length_flows analyzed] at inside
  obtain ⟨_, _, listed, -, described⟩ := flows_spec analyzed (List.getElem?_eq_getElem inside)
  cases listed.symm.trans found
  exact ⟨_, List.getElem?_eq_getElem inside, described⟩

theorem used_on_path_iff :
    UsedOnPath computed name idx ↔ ReadOnPath arch temps body name idx := by
  constructor
  · intro path
    induction path with
    | here found used =>
      obtain ⟨insn, listed, described, -⟩ := insn_of_flow analyzed found
      exact .here listed ((described.uses name).mp used)
    | behind found kept among _ ih =>
      obtain ⟨insn, listed, described, successors⟩ := insn_of_flow analyzed found
      rw [described.defs, described.kills] at kept
      exact .behind listed kept ((successors _).mp among) ih
  · intro path
    induction path with
    | here found read =>
      obtain ⟨_, _, listed, -, described, -⟩ := flows_spec analyzed found
      exact .here listed ((described.uses name).mpr read)
    | behind found kept goes _ ih =>
      obtain ⟨_, _, listed, -, described, successors⟩ := flows_spec analyzed found
      rw [← described.defs, ← described.kills] at kept
      exact .behind listed kept ((successors _).mpr goes) ih

end

theorem mapM_isSome {α β : Type} {f : α → Option β} {inputs : List α}
    (each : ∀ input ∈ inputs, ∃ result, f input = some result) :
    ∃ results, inputs.mapM f = some results := by
  induction inputs with
  | nil => exact ⟨[], rfl⟩
  | cons input rest ih =>
    obtain ⟨⟨first, mapped⟩, later⟩ := forall_mem_cons.mp each
    obtain ⟨results, rests⟩ := ih later
    exact ⟨first :: results, by simp [mapM_cons, mapped, rests]⟩

theorem flows_known {arch : Arch} {temps : Temps} {body : List AsmInstruction}
    (known : ∀ insn ∈ body, isKnown insn = true) :
    ∃ computed, flows arch temps body = some computed := by
  refine mapM_isSome fun entry mem => ?_
  obtain ⟨terminal, useDef, ends, analyzed⟩ := @analyze_instruction_known arch temps entry.1
    (known entry.1 (mem_of_getElem? (mem_zipIdx_iff_getElem?.mp mem)))
  simp [flowAt, ends, analyzed]

namespace LiveSets

def liveAt (sets : LiveSets) (j : Nat) : Finset (String ⊕ String) :=
  (sets.inAt j).disjSum (sets.outAt j)

def newAt (sets : LiveSets) (flow : Flow) : Finset (String ⊕ String) :=
  (sets.newIn flow).disjSum (sets.newOut flow)

/-- What the loop keeps: the sets hold only what they should, and another update can only add
to them. -/
structure Rising (flows : List Flow) (sets : LiveSets) : Prop where
  lengths : sets.liveIn.length = flows.length ∧ sets.liveOut.length = flows.length
  below : ∀ index flow, flows[index]? = some flow → sets.liveAt index ⊆ sets.newAt flow
  onPath : ∀ index name, .inl name ∈ sets.liveAt index → UsedOnPath flows name index

def weight (flows : List Flow) (sets : LiveSets) : Nat :=
  ∑ j ∈ Finset.range flows.length, (sets.liveAt j).card

def used (flows : List Flow) : Finset String :=
  (Finset.range flows.length).biUnion fun j => (flows[j]?).elim ∅ (·.useDef.uses)

variable {flows : List Flow} {sets : LiveSets} {idx : Nat} {flow : Flow} {name : String}

theorem new_at_subset {other : LiveSets} (grown : ∀ j, sets.liveAt j ⊆ other.liveAt j) :
    sets.newAt flow ⊆ other.newAt flow := by
  have outs : sets.newOut flow ⊆ other.newOut flow := by
    intro name mem
    obtain ⟨successor, listed, live⟩ := mem_new_out.mp mem
    have := grown successor (inl_mem_disjSum.mpr live)
    exact mem_new_out.mpr ⟨successor, listed, inl_mem_disjSum.mp this⟩
  refine disjSum_mono (fun name mem => ?_) outs
  rcases mem_new_in.mp mem with used | ⟨out, kept⟩
  · exact mem_new_in.mpr (.inl used)
  · exact mem_new_in.mpr (.inr ⟨outs out, kept⟩)

theorem mem_used (path : UsedOnPath flows name idx) : name ∈ used flows := by
  induction path with
  | here found isUsed =>
    refine Finset.mem_biUnion.mpr ⟨_, ?_, by rwa [found]⟩
    exact Finset.mem_range.mpr (List.getElem?_eq_some_iff.mp found).1
  | behind _ _ _ _ ih => exact ih

section
variable (rising : Rising flows sets)
include rising

section
variable (found : flows[idx]? = some flow)
include found

theorem Rising.live_at_update {j : Nat} : (sets.update idx flow).liveAt j =
    if j = idx then sets.newAt flow else sets.liveAt j := by
  have inside := (List.getElem?_eq_some_iff.mp found).1
  unfold update
  split
  · by_cases here : j = idx
    · subst here
      simp [liveAt, newAt, inAt, outAt, rising.lengths, inside]
    · simp [liveAt, inAt, outAt, here, Ne.symm here]
  · rename_i same
    rw [not_or, not_not, not_not] at same
    split_ifs with here
    · rw [here, newAt, same.1, same.2, liveAt]
    · rfl

theorem Rising.grows (j : Nat) : sets.liveAt j ⊆ (sets.update idx flow).liveAt j := by
  rw [rising.live_at_update found]
  split_ifs with here
  · rw [here]
    exact rising.below idx flow found
  · exact subset_rfl

theorem Rising.update : Rising flows (sets.update idx flow) := by
  have grown := rising.grows found
  refine ⟨?_, ?_, ?_⟩
  · rw [LiveSets.update]
    split <;> simp [rising.lengths]
  · intro j flowThere foundThere
    rw [rising.live_at_update found]
    split_ifs with here
    · rw [here, found] at foundThere
      cases foundThere
      exact new_at_subset grown
    · exact (rising.below j flowThere foundThere).trans (new_at_subset grown)
  · intro j name
    rw [rising.live_at_update found]
    split_ifs with here
    · intro mem
      rw [here]
      rcases mem_new_in.mp (inl_mem_disjSum.mp mem) with used | ⟨out, kept⟩
      · exact .here found used
      · obtain ⟨successor, listed, live⟩ := mem_new_out.mp out
        exact .behind found kept listed (rising.onPath successor name (inl_mem_disjSum.mpr live))
    · exact rising.onPath j name

theorem Rising.weight_update : weight flows sets ≤ weight flows (sets.update idx flow) ∧
    ((sets.update idx flow).changed = true →
      sets.changed = true ∨ weight flows sets < weight flows (sets.update idx flow)) := by
  have each (j : Nat) := Finset.card_le_card (rising.grows found j)
  refine ⟨Finset.sum_le_sum fun j _ => each j, fun changed => ?_⟩
  by_cases same : sets.newAt flow = sets.liveAt idx
  · left
    rw [newAt, liveAt, Finset.disjSum_inj] at same
    rwa [LiveSets.update, if_neg (by simp [same])] at changed
  · right
    refine Finset.sum_lt_sum (fun j _ => each j) ⟨idx, ?_, ?_⟩
    · exact Finset.mem_range.mpr (List.getElem?_eq_some_iff.mp found).1
    · rw [rising.live_at_update found, if_pos rfl]
      exact Finset.card_lt_card ((rising.below idx flow found).ssubset_of_ne (Ne.symm same))

end

theorem Rising.pass : Rising flows (sets.pass flows) ∧
    ((sets.pass flows).changed = true → weight flows sets < weight flows (sets.pass flows)) := by
  suffices general : ∀ entries : List (Flow × Nat),
      (∀ entry ∈ entries, flows[entry.2]? = some entry.1) →
      let result := entries.foldr (fun entry sets => sets.update entry.2 entry.1)
        { sets with changed := false }
      Rising flows result ∧ weight flows sets ≤ weight flows result ∧
        (result.changed = true → weight flows sets < weight flows result) by
    obtain ⟨after, -, changed⟩ := general flows.zipIdx (by simp [mem_zipIdx_iff_getElem?])
    exact ⟨after, changed⟩
  intro entries
  induction entries with
  | nil => exact fun _ => ⟨{ rising with }, le_rfl, nofun⟩
  | cons entry rest ih =>
    intro found
    obtain ⟨here, later⟩ := forall_mem_cons.mp found
    obtain ⟨after, grows, changed⟩ := ih later
    obtain ⟨grown, changedHere⟩ := after.weight_update here
    refine ⟨after.update here, grows.trans grown, fun isChanged => ?_⟩
    rcases changedHere isChanged with before | strictly
    · exact (changed before).trans_le grown
    · exact grows.trans_lt strictly

theorem Rising.weight_le : weight flows sets ≤ flows.length * (2 * (used flows).card) := by
  have each : ∀ j ∈ Finset.range flows.length, (sets.liveAt j).card ≤ 2 * (used flows).card := by
    intro j inside
    have below := rising.below j _ (List.getElem?_eq_getElem (Finset.mem_range.mp inside))
    rw [Nat.two_mul, ← Finset.card_disjSum]
    refine Finset.card_le_card fun side mem => ?_
    cases side with
    | inl name => exact Finset.inl_mem_disjSum.mpr (mem_used (rising.onPath j name mem))
    | inr name =>
      obtain ⟨successor, -, live⟩ := mem_new_out.mp (Finset.inr_mem_disjSum.mp (below mem))
      exact Finset.inr_mem_disjSum.mpr
        (mem_used (rising.onPath successor name (Finset.inl_mem_disjSum.mpr live)))
  exact (Finset.sum_le_card_nsmul _ _ _ each).trans (by simp)

theorem Rising.iterate {left : Nat}
    (enough : flows.length * (2 * (used flows).card) ≤ weight flows sets + left) :
    ∃ final, Rising flows final ∧ ∀ fuel, left < fuel → iterate flows fuel sets = some final := by
  induction left using Nat.strong_induction_on generalizing sets with
  | _ left ih =>
    obtain ⟨after, changed⟩ := rising.pass
    by_cases isChanged : (sets.pass flows).changed = true
    · have heavier := changed isChanged
      have bounded := after.weight_le
      obtain ⟨final, finalRising, reached⟩ := ih (left - 1) (by omega) after (by omega)
      refine ⟨final, finalRising, fun fuel more => ?_⟩
      obtain ⟨fuel, rfl⟩ := Nat.exists_eq_succ_of_ne_zero (Nat.ne_zero_of_lt more)
      rw [iterate, if_pos isChanged]
      exact reached fuel (by omega)
    · refine ⟨_, after, fun fuel more => ?_⟩
      obtain ⟨fuel, rfl⟩ := Nat.exists_eq_succ_of_ne_zero (Nat.ne_zero_of_lt more)
      rw [iterate, if_neg isChanged]

theorem Rising.mem_in_at_iff (solves : sets.Solves flows) :
    name ∈ sets.inAt idx ↔ UsedOnPath flows name idx := by
  refine ⟨fun mem => rising.onPath idx name (inl_mem_disjSum.mpr mem), fun path => ?_⟩
  induction path with
  | here found isUsed =>
    rw [(solves _ _ found).1, mem_new_in]
    exact .inl isUsed
  | behind found kept listed _ live =>
    rw [(solves _ _ found).1, mem_new_in, mem_new_out]
    exact .inr ⟨⟨_, listed, live⟩, kept⟩

end

theorem rising_empty : Rising flows (empty flows.length) := by
  have nothing (j : Nat) : (empty flows.length).liveAt j = ∅ := by
    simp only [liveAt, inAt, outAt, empty, getD_eq_getElem?_getD, getElem?_replicate]
    split <;> rfl
  exact ⟨by simp [empty], by simp [nothing], by simp [nothing]⟩

end LiveSets

theorem liveness_is_path_liveness (handler : String) {body : List AsmInstruction} {arch : Arch}
    {temps : Temps} (listed : body ≠ []) (known : ∀ insn ∈ body, isKnown insn = true) :
    ∃ liveness enough,
      (∀ index name, name ∈ liveness.sets.inAt index ↔ ReadOnPath arch temps body name index) ∧
      ∀ fuel, enough < fuel →
        (computeLiveness fuel handler body arch temps = .ok liveness ∨
          ∃ problem, computeLiveness fuel handler body arch temps = .error (.failed problem)) ∧
        (computeLiveness fuel handler body arch temps = .ok liveness ↔
          ∀ name, temps.contains name = true → ¬ ReadOnPath arch temps body name 0) := by
  obtain ⟨computed, analyzed⟩ := flows_known known
  obtain ⟨sets, rising, reached⟩ := rising_empty.iterate (Nat.le_add_left _ _)
  have onPath (index : Nat) (name : String) :
      name ∈ sets.inAt index ↔ ReadOnPath arch temps body name index :=
    (rising.mem_in_at_iff (iterate_solves (reached _ (Nat.lt_succ_self _)))).trans
      (used_on_path_iff analyzed)
  refine ⟨⟨computed, sets⟩, computed.length * (2 * (used computed).card), onPath,
    fun fuel enough => ?_⟩
  simp only [← onPath]
  rw [← live_at_entry_none, computeLiveness, analyzed, ← length_flows analyzed]
  simp only [reached fuel enough, if_neg listed]
  cases liveAtEntry temps sets with
  | none => simp
  | some => simp

theorem read_behind_straight {arch : Arch} {temps : Temps} {body : List AsmInstruction}
    {name : String} {idx : Nat} {insn : AsmInstruction} (found : body[idx]? = some insn)
    (unread : name ∉ readBy arch temps insn) (straight : ∀ label, .label label ∉ insn.operands)
    (path : ReadOnPath arch temps body name idx) :
    name ∉ writtenBy arch temps insn ∧ ReadOnPath arch temps body name (idx + 1) := by
  cases path with
  | here same read =>
    cases same.symm.trans found
    exact absurd read unread
  | behind same kept goes later =>
    cases same.symm.trans found
    obtain ⟨other, otherFound, ⟨label, mem, -⟩ | ⟨-, rfl, -⟩⟩ := goes
    · cases otherFound.symm.trans found
      exact absurd mem (straight label)
    · exact ⟨kept.1, later⟩

/-- A loop over two temps. -/
def countingBody : List AsmInstruction :=
  [⟨"temp", [.register "count", .register "step"]⟩,
    ⟨"mov", [.register "count", .immediate 1]⟩,
    ⟨"mov", [.register "step", .immediate 2]⟩,
    ⟨"label", [.label ".top"]⟩,
    ⟨"add", [.register "count", .register "step"]⟩,
    ⟨"branch_lt_signed", [.register "count", .immediate 9, .label ".top"]⟩,
    ⟨"store_operand", [.fieldRef "m_dst", .register "count"]⟩,
    ⟨"dispatch_next", []⟩]

/-- Round the loop, `step` is live before the branch back. -/
theorem counting_body_liveness :
    ∃ liveness enough, "step" ∈ liveness.sets.inAt 5 ∧ ∀ fuel, enough < fuel →
      computeLiveness fuel "Count" countingBody .x86_64 ⟨["count", "step"], []⟩ = .ok liveness := by
  obtain ⟨liveness, enough, onPath, result⟩ := @liveness_is_path_liveness "Count" countingBody
    .x86_64 ⟨["count", "step"], []⟩ (by simp [countingBody]) (by decide +kernel)
  refine ⟨liveness, enough, (onPath 5 "step").mpr ?_, fun fuel more => (result fuel more).2.mpr ?_⟩
  · have falls : follows countingBody 3 4 := ⟨_, rfl, .inr (by decide +kernel)⟩
    have back : follows countingBody 5 3 :=
      ⟨_, rfl, .inl ⟨".top", by simp, by decide +kernel⟩⟩
    have added : ReadOnPath .x86_64 ⟨["count", "step"], []⟩ countingBody "step" 4 :=
      .here rfl (by decide +kernel)
    exact .behind rfl (by decide +kernel) back (.behind rfl (by decide +kernel) falls added)
  · -- Each temp is written before the loop, `count` first.
    have unread : ∀ name ∈ ["count", "step"], ∀ idx < 3, ∀ insn ∈ countingBody[idx]?,
        name ∉ readBy .x86_64 ⟨["count", "step"], []⟩ insn := by decide +kernel
    have written : ∀ name ∈ ["count", "step"], ∃ idx < 3, ∃ insn ∈ countingBody[idx]?,
        name ∈ writtenBy .x86_64 ⟨["count", "step"], []⟩ insn := by decide +kernel
    intro name declared path
    have temp : name ∈ ["count", "step"] := by simpa [Temps.contains] using declared
    obtain ⟨never, path⟩ := read_behind_straight rfl (unread name temp 0 (by decide) _ rfl)
      (by simp) path
    obtain ⟨notFirst, path⟩ := read_behind_straight rfl (unread name temp 1 (by decide) _ rfl)
      (by simp) path
    obtain ⟨notSecond, -⟩ := read_behind_straight rfl (unread name temp 2 (by decide) _ rfl)
      (by simp) path
    obtain ⟨idx, inside, insn, found, mem⟩ := written name temp
    rcases idx with _ | _ | _ | idx
    · cases found
      exact never mem
    · cases found
      exact notFirst mem
    · cases found
      exact notSecond mem
    · omega

/-- A register the temp is named after is destroyed before the temp is read, and nothing ever
writes it; and the analysis panics where there is no entry, no table entry or no operand kind. -/
theorem killed_temp_counts_as_assigned :
    let body : List AsmInstruction := [⟨"temp", [.register "rcx"]⟩, ⟨"reload_exec_ctx", []⟩,
      ⟨"store_operand", [.fieldRef "m_dst", .register "rcx"]⟩, ⟨"dispatch_next", []⟩]
    ((computeLiveness 3 "Test" body .x86_64 ⟨["rcx"], []⟩).isOk = true ∧
      (∀ insn ∈ body, "rcx" ∉ writtenBy .x86_64 ⟨["rcx"], []⟩ insn) ∧
      follows body 0 1 ∧ follows body 1 2 ∧
      ∃ insn ∈ body[2]?, "rcx" ∈ readBy .x86_64 ⟨["rcx"], []⟩ insn) ∧
    computeLiveness 1 "Empty" [] .x86_64 ⟨[], []⟩ = .error .panicked ∧
    computeLiveness 2 "Unknown" [⟨"nop", []⟩] .x86_64 ⟨[], []⟩ = .error .panicked ∧
    computeLiveness 2 "Unkinded" [⟨"exit", [.immediate 1]⟩] .x86_64 ⟨[], []⟩ =
      .error .panicked := by
  intro body
  have declared : follows body 0 1 := ⟨_, rfl, .inr (by decide +kernel)⟩
  have killed : follows body 1 2 := ⟨_, rfl, .inr (by decide +kernel)⟩
  exact ⟨⟨by decide +kernel, by decide +kernel, declared, killed, by decide +kernel⟩, rfl, rfl,
    rfl⟩

end Ladybone.AsmIntGen
