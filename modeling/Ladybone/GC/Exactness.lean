import Mathlib.Data.List.Nodup
import Ladybone.GC.Safety

/-!
# Sweeping is exact

A mark phase finds no mark on a live cell. From its end until its sweep is complete, every
live cell it left unmarked is deallocated once, and no other cell is. Steps are cut at the
mark phase they may contain, so that a sweep ends where the next mark phase begins.
-/

namespace Ladybone.GC.Heap

open List Option Support.Runs

def turn (heap : Heap) (action : Action) : Option Heap :=
  (heap.step action).map fun after => if heap.collects action then heap.settled action else after

open Classical in
/-- The states since the end of a mark phase, until its sweep is complete, with how often
each cell has been deallocated. -/
inductive SweepOf (marked : Heap) : Heap → (Reference → Nat) → Prop where
  | start : SweepOf marked marked fun _ => 0
  | turn {now next : Heap} {count : Reference → Nat} (action : Action) :
      SweepOf marked now count → now.incrementalSweepActive = true →
        now.turn action = some next →
        SweepOf marked next fun ref => count ref + if Deallocated now next ref then 1 else 0

variable {heap : Heap}

theorem Exact.turn {next : Heap} {action : Action} (exact : heap.Exact)
    (turned : heap.turn action = some next) : Passes heap next ∧ next.Exact := by
  obtain ⟨after, stepped, rfl⟩ := map_eq_some_iff.mp turned
  obtain ⟨pauses, passes⟩ := step_splits exact.safe exact.fresh stepped
  split_ifs with collects
  · have quiet := (pauses collects).quiet.passes
    exact ⟨quiet, quiet.exact exact⟩
  · have quiet := passes (Bool.eq_false_iff.mpr collects)
    exact ⟨quiet, quiet.exact exact⟩

theorem SweepOf.counted {marked now : Heap} {count : Reference → Nat} (exact : marked.Exact)
    (keptIff : ∀ ref, marked.Kept ref ↔ marked.LiveAt ref ∧ marked.marks ref.address = true)
    (sweep : SweepOf marked now count) :
    now.Exact ∧ marked.nextIdentity ≤ now.nextIdentity ∧ ∀ ref,
      (marked.LiveAt ref ∧ marked.marks ref.address = false → ¬ now.Kept ref ∧
        (now.LiveAt ref → count ref = 0) ∧ (¬ now.LiveAt ref → count ref = 1)) ∧
      (¬ (marked.LiveAt ref ∧ marked.marks ref.address = false) →
        (now.LiveAt ref → now.Kept ref) ∧ count ref = 0) := by
  induction sweep with
  | start =>
    refine ⟨exact, Nat.le_refl _, fun ref => ⟨fun unmarked => ?_, fun others => ?_⟩⟩
    · rw [keptIff, unmarked.2]
      exact ⟨nofun, fun _ => rfl, fun gone => absurd unmarked.1 gone⟩
    · refine ⟨fun live => (keptIff ref).mpr ⟨live, ?_⟩, rfl⟩
      by_contra notMarked
      exact others ⟨live, Bool.eq_false_iff.mpr notMarked⟩
  | @turn now next count action _ _ turned ih =>
    obtain ⟨exactNow, grows, counted⟩ := ih
    obtain ⟨passes, exactNext⟩ := exactNow.turn turned
    refine ⟨exactNext, Nat.le_trans grows passes.grows,
      fun ref => ⟨fun unmarked => ?_, fun others => ?_⟩⟩
    · obtain ⟨doomed, stillThere, gone⟩ := (counted ref).1 unmarked
      have known := exact.fresh ref unmarked.1
      have before (live : next.LiveAt ref) : now.LiveAt ref := by
        rcases passes.new ref live with old | ⟨new, -⟩
        · exact old
        · omega
      refine ⟨fun kept => doomed ((passes.old ref (before kept.1) kept.1).mp kept), ?_, ?_⟩
      · intro live
        beta_reduce
        rw [stillThere (before live), if_neg fun freed => freed.2 live]
      · intro dead
        beta_reduce
        by_cases live : now.LiveAt ref
        · rw [stillThere live, if_pos ⟨live, dead⟩]
        · rw [gone live, if_neg fun freed => live freed.1]
    · obtain ⟨kept, none⟩ := (counted ref).2 others
      refine ⟨fun live => ?_, ?_⟩
      · rcases passes.new ref live with old | ⟨-, -, new⟩
        · exact (passes.old ref old live).mpr (kept old)
        · exact new
      · beta_reduce
        rw [none, if_neg fun freed => freed.2 (passes.advances.2 ref (kept freed.1))]

/-- In every run: a block is on one of its allocator's lists, the usable one if it has a free
cell; a mark phase finds no live cell marked; and up to the end of its sweep the live cells it
left unmarked are deallocated once each, and no others. -/
theorem incremental_sweeping_is_exact (cellCounts : Nat → Nat) (heap : Heap)
    (run : Execution step Unrestricted (initial cellCounts) heap) :
    (∀ index block, heap.blocks index = some block →
      (heap.allocators block.allocator).blocks.count index = 1 ∧
      (index ∈ (heap.allocators block.allocator).usableBlocks ↔
        ∃ pos < block.cellCount, block.isLive pos = false)) ∧
    ∀ action marked, heap.step action = some marked → heap.collects action = true →
      (∀ address, (heap.settled action).isLive address = true →
        (heap.settled action).marks address = false) ∧
      ∀ last count, SweepOf marked last count → last.incrementalSweepActive = false → ∀ ref,
        (marked.LiveAt ref ∧ marked.marks ref.address = false → count ref = 1) ∧
        (¬ (marked.LiveAt ref ∧ marked.marks ref.address = false) → count ref = 0) := by
  have exact := run_exact run
  refine ⟨fun index block found => ⟨?_, ?_⟩, ?_⟩
  · exact count_eq_one_of_mem (exact.safe.layout.nodup _)
      (exact.safe.layout.listed index block found).1
  · obtain ⟨complete, listed⟩ := exact.sorted index block found
    exact listed.trans
      (HeapBlock.not_full_iff (exact.safe.layout.wellFormed index block found) complete)
  · intro action marked stepped collects
    have pause := (step_splits exact.safe exact.fresh stepped).1 collects
    have kept (ref : Reference) :
        marked.Kept ref ↔ marked.LiveAt ref ∧ marked.marks ref.address = true := by
      obtain ⟨words, flag, rfl⟩ := pause.marked
      exact mark_and_start_kept pause.quiet.safe pause.idle
        (constructing_nil pause.quiet.safe pause.running) words ref
    refine ⟨pause.quiet.safe.layout.marksIdle pause.idle, fun last count sweep complete ref => ?_⟩
    obtain ⟨-, -, counted⟩ := sweep.counted (exact.step stepped).1 kept
    refine ⟨fun unmarked => ?_, fun others => ((counted ref).2 others).2⟩
    obtain ⟨doomed, -, gone⟩ := (counted ref).1 unmarked
    exact gone fun live => doomed ((kept_of_idle complete).mpr live)

theorem incremental_sweeping_is_exact_swept :
    ∃ heap marked last count, Execution step Unrestricted (initial fun _ => 2) heap ∧
      heap.step (.collect []) = some marked ∧ SweepOf marked last count ∧
      last.incrementalSweepActive = false ∧ marked.LiveAt ⟨⟨0, 0⟩, 0⟩ ∧
      marked.marks ⟨0, 0⟩ = false ∧ count ⟨⟨0, 0⟩, 0⟩ = 1 := by
  have ends : ((follow step (fun _ _ => true) (initial fun _ => 2) sweepingRun.dropLast).any
      fun heap => heap.gcDeferrals == 0 && (heap.step (.collect [])).any fun marked =>
        marked.incrementalSweepActive && !marked.marks ⟨0, 0⟩ &&
          marked.cellAt ⟨0, 0⟩ == some ⟨.live, 0, []⟩ &&
            (marked.turn (.timer 9)).any fun last => !last.incrementalSweepActive) = true := by
    decide +kernel
  simp only [Option.any_eq_true, Bool.and_eq_true, Bool.not_eq_eq_eq_not, Bool.not_true,
    beq_iff_eq] at ends
  obtain ⟨heap, followed, running, marked, stepped, ⟨⟨active, unmarked⟩, there⟩, last, turned,
    idle⟩ := ends
  have run : Execution step Unrestricted (initial fun _ => 2) heap :=
    Execution.of_actions _ followed
  have sweep := SweepOf.turn (.timer 9) (@SweepOf.start marked) active turned
  have live : marked.LiveAt ⟨⟨0, 0⟩, 0⟩ := ⟨_, there, rfl, rfl⟩
  have exactly := (incremental_sweeping_is_exact (fun _ => 2) heap run).2 (.collect []) marked
    stepped (beq_iff_eq.mpr running)
  exact ⟨heap, marked, last, _, run, stepped, sweep, idle, live, unmarked,
    (exactly.2 last _ sweep idle _).1 ⟨live, unmarked⟩⟩

end Ladybone.GC.Heap
