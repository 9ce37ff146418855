import Ladybone.GC.Layout
import Mathlib.Algebra.Order.BigOperators.Group.List
import Mathlib.Algebra.Order.Group.Nat

/-!
# Sweeps

However a sweep is driven (by the timer, by an allocator looking for free cells, or to its
end before the next collection), it is a sequence of swept pending blocks, possibly closed
by `finish_incremental_sweep`. `Sweeps` is that sequence; what one block and the closing
keep, every sweep keeps.
-/

namespace Ladybone.GC.Heap

open List Option Function

inductive Sweeps : Heap → Heap → Prop where
  | refl (heap : Heap) : Sweeps heap heap
  | block {heap after : Heap} (index : Nat) (queue : List Nat) :
      heap.incrementalSweepActive = true → heap.Pending index →
        (∀ allocator, ((heap.sweepBlock index).allocators allocator).blocksPendingSweep ≠ [] →
          allocator ∈ queue) →
        Sweeps { heap.sweepBlock index with allocatorsToSweep := queue } after → Sweeps heap after
  | finish {heap : Heap} :
      heap.incrementalSweepActive = true → (∀ index, ¬ heap.Pending index) →
        Sweeps heap { heap with allocatorsToSweep := [] }.finishIncrementalSweep

variable {heap after : Heap} {block : HeapBlock} {queue : List Nat} {idx : Nat}

theorem Layout.mutate (layout : heap.Layout) {gcDeferrals nextIdentity : Nat}
    {shouldGcWhenDeferralEnds : Bool} {weakImpls : Nat → WeakImpl} {roots : List Reference}
    {weaks : List WeakHandle} {scopes : List Scope} :
    Layout { heap with
      gcDeferrals, shouldGcWhenDeferralEnds, weakImpls, roots, weaks, scopes, nextIdentity } :=
  { layout with }

theorem Layout.requeue (layout : heap.Layout)
    (complete : ∀ alloc, (heap.allocators alloc).blocksPendingSweep ≠ [] →
      alloc ∈ queue) : Layout { heap with allocatorsToSweep := queue } :=
  { layout with pendingFound := complete }

theorem finish_layout (layout : heap.Layout)
    (active : heap.incrementalSweepActive = true) (drained : ∀ idx, ¬ heap.Pending idx) :
    Layout { heap with allocatorsToSweep := [] }.finishIncrementalSweep := by
  refine { layout with
    pendingFound := ?_, idle := fun _ => drained, marksIdle := ?_, marksActive := ?_ }
  · intro alloc pending
    obtain ⟨idx, mem⟩ := exists_mem_of_ne_nil _ pending
    exact absurd ⟨alloc, mem⟩ (drained idx)
  · intro _ address live
    simp only [finishIncrementalSweep]
    split
    · rfl
    · rename_i unrecorded
      by_contra marked
      rcases layout.marksActive active address live (Bool.not_eq_false _ ▸ marked) with
        pending | recorded
      · exact drained _ pending
      · exact unrecorded recorded
  · intro runs
    cases runs

theorem Sweeps.layout (sweeps : Sweeps heap after) (layout : heap.Layout) : after.Layout := by
  induction sweeps with
  | refl => exact layout
  | block _ _ active pending complete _ ih =>
    obtain ⟨alloc, pending⟩ := pending
    obtain ⟨block, found, -⟩ := layout.pending_owner pending
    exact ih ((sweep_block_layout found layout active).requeue complete)
  | finish active drained => exact finish_layout layout active drained

theorem Sweeps.registered (sweeps : Sweeps heap after) :
    after.allCellAllocators = heap.allCellAllocators := by
  induction sweeps with
  | refl => rfl
  | @block current _ idx _ _ _ _ _ ih =>
    have same : (current.sweepBlock idx).allCellAllocators = current.allCellAllocators := by
      unfold sweepBlock
      split <;> rfl
    exact ih.trans same
  | finish => rfl

/-- Blocks with a free cell, and only they, are on the usable list. -/
def Sorted (heap : Heap) : Prop :=
  ∀ index block, heap.blocks index = some block → block.Listed ∧
    (index ∈ (heap.allocators block.allocator).usableBlocks ↔ block.isFull = false)

theorem sweep_not_full {marked : Nat → Bool} (room : block.isFull = false) :
    (block.sweep marked).isFull = false := by
  refine foldlRecOn (motive := fun swept : HeapBlock => swept.isFull = false) _ _ room
    fun swept room idx _ => ?_
  unfold HeapBlock.sweepCell
  split
  · simp [HeapBlock.isFull, HeapBlock.deallocate]
  · exact room

theorem sweep_block_sorted (found : heap.blocks idx = some block) (layout : heap.Layout)
    (sorted : heap.Sorted) : (heap.sweepBlock idx).Sorted := by
  intro place other there
  have owner := (HeapBlock.sweep_spec (fun cell => heap.marks ⟨idx, cell⟩)
    (layout.wellFormed idx block found)).2.1
  simp only [sweepBlock, found] at there ⊢
  by_cases here : place = idx
  · subst here
    rw [update_self, ite_none_right_eq_some] at there
    obtain ⟨hasLive, same⟩ := there
    cases same
    obtain ⟨complete, listed⟩ := sorted place block found
    refine ⟨complete.sweep _, ?_⟩
    rw [owner, hasLive]
    cases wasFull : block.isFull with
    | false =>
      rw [wasFull] at listed
      simp [reclassify, sweep_not_full wasFull, listed]
    | true =>
      rw [wasFull] at listed
      cases full : (block.sweep fun cell => heap.marks ⟨place, cell⟩).isFull with
      | false => simp [reclassify]
      | true => simpa [reclassify] using listed
  · rw [update_of_ne here] at there
    refine ⟨(sorted place other there).1, ?_⟩
    rw [← (sorted place other there).2]
    by_cases same : other.allocator = block.allocator
    · rw [same, update_self]
      unfold reclassify
      split_ifs <;> simp [here]
    · rw [update_of_ne same]

/-! ## The drivers -/

section
variable {heap : Heap}

theorem sweep_block_pending_length (found : heap.blocks idx = some block) (alloc : Nat) :
    ((heap.sweepBlock idx).allocators alloc).blocksPendingSweep.length ≤
      (heap.allocators alloc).blocksPendingSweep.length := by
  simp only [sweepBlock, found]
  by_cases same : alloc = block.allocator
  · subst same
    rw [update_self, reclassify_pending]
    exact length_erase_le
  · simp [update_of_ne same]

theorem sweep_block_pending_ne_nil (found : heap.blocks idx = some block) {alloc : Nat}
    (pending : ((heap.sweepBlock idx).allocators alloc).blocksPendingSweep ≠ []) :
    (heap.allocators alloc).blocksPendingSweep ≠ [] := by
  intro empty
  have shorter := sweep_block_pending_length found alloc
  rw [empty] at shorter
  exact pending (eq_nil_of_length_eq_zero (Nat.le_zero.mp shorter))

def pendingSum (heap : Heap) (queue : List Nat) : Nat :=
  (queue.map fun allocator => (heap.allocators allocator).blocksPendingSweep.length).sum

/-- One turn of `sweep_next_block`: nothing is pending, or one pending block is swept and
there is less left. -/
theorem sweep_first_pending_spec (layout : heap.Layout)
    (complete : ∀ alloc, (heap.allocators alloc).blocksPendingSweep ≠ [] → alloc ∈ queue) :
    (heap.sweepFirstPending queue = (true, { heap with allocatorsToSweep := [] }) ∧
        ∀ idx, ¬ heap.Pending idx) ∨
      ∃ idx rest, heap.Pending idx ∧ heap.sweepFirstPending queue =
          (false, { heap.sweepBlock idx with allocatorsToSweep := rest }) ∧
        (∀ alloc, ((heap.sweepBlock idx).allocators alloc).blocksPendingSweep ≠ [] → alloc ∈ rest) ∧
        (heap.sweepBlock idx).pendingSum rest < heap.pendingSum queue := by
  induction queue with
  | nil =>
    refine .inl ⟨rfl, ?_⟩
    rintro idx ⟨alloc, pending⟩
    exact not_mem_nil (complete alloc (ne_nil_of_mem pending))
  | cons alloc rest ih =>
    cases waiting : (heap.allocators alloc).blocksPendingSweep with
    | nil =>
      have completeRest : ∀ other, (heap.allocators other).blocksPendingSweep ≠ [] →
          other ∈ rest := by
        intro other pending
        rcases mem_cons.mp (complete other pending) with rfl | later
        · exact absurd waiting pending
        · exact later
      have same : heap.sweepFirstPending (alloc :: rest) = heap.sweepFirstPending rest := by
        simp [sweepFirstPending, waiting]
      have sum : heap.pendingSum (alloc :: rest) = heap.pendingSum rest := by
        simp [pendingSum, waiting]
      rw [same, sum]
      exact ih completeRest
    | cons idx =>
      right
      have pending : idx ∈ (heap.allocators alloc).blocksPendingSweep := by
        rw [waiting]
        exact mem_cons_self
      obtain ⟨block, found, owner⟩ := layout.pending_owner pending
      have shorter : ((heap.sweepBlock idx).allocators alloc).blocksPendingSweep.length <
          (heap.allocators alloc).blocksPendingSweep.length := by
        simp only [sweepBlock, found, ← owner, update_self, reclassify_pending]
        rw [owner, waiting, erase_cons_head]
        exact Nat.lt_succ_self _
      have restSum : (heap.sweepBlock idx).pendingSum rest ≤ heap.pendingSum rest :=
        sum_le_sum fun alloc _ => sweep_block_pending_length found alloc
      refine ⟨idx,
        if ((heap.sweepBlock idx).allocators alloc).blocksPendingSweep = [] then rest
        else alloc :: rest,
        ⟨alloc, pending⟩, by simp only [sweepFirstPending, waiting], ?_, ?_⟩
      · intro other stillPending
        have listed := complete other (sweep_block_pending_ne_nil found stillPending)
        split
        · rename_i drained
          rcases mem_cons.mp listed with rfl | later
          · exact absurd drained stillPending
          · exact later
        · exact listed
      · simp only [pendingSum, map_cons, sum_cons] at restSum ⊢
        split
        · omega
        · simp only [map_cons, sum_cons]
          omega

theorem sweep_block_active (idx : Nat) :
    (heap.sweepBlock idx).incrementalSweepActive = heap.incrementalSweepActive := by
  unfold sweepBlock
  split <;> rfl

theorem sweep_slice_sweeps (layout : heap.Layout) (active : heap.incrementalSweepActive = true)
    (runs : heap.gcDeferrals = 0) {turns : Nat} :
    Sweeps heap (heap.sweepSlice turns) ∧
      (heap.pendingBlocks < turns → (heap.sweepSlice turns).incrementalSweepActive = false) := by
  induction turns generalizing heap with
  | zero => exact ⟨Sweeps.refl heap, fun enough => absurd enough (Nat.not_lt_zero _)⟩
  | succ turns ih =>
    have next : heap.sweepNextBlock = heap.sweepFirstPending heap.allocatorsToSweep := by
      simp [sweepNextBlock, isGcDeferred, active, runs]
    rcases sweep_first_pending_spec layout layout.pendingFound with
      ⟨ended, drained⟩ | ⟨idx, rest, pending, swept, complete, less⟩
    · have finished : heap.sweepSlice (turns + 1) =
          { heap with allocatorsToSweep := [] }.finishIncrementalSweep := by
        simp [sweepSlice, next, ended]
      rw [finished]
      exact ⟨Sweeps.finish active drained, fun _ => rfl⟩
    · have continued : heap.sweepSlice (turns + 1) =
          sweepSlice { heap.sweepBlock idx with allocatorsToSweep := rest } turns := by
        simp [sweepSlice, next, swept]
      obtain ⟨alloc, mem⟩ := pending
      obtain ⟨block, found, -⟩ := layout.pending_owner mem
      obtain ⟨further, ends⟩ := ih
        ((sweep_block_layout found layout active).requeue complete)
        ((sweep_block_active idx).trans active) (by simpa [sweepBlock, found] using runs)
      rw [continued]
      refine ⟨Sweeps.block idx rest active ⟨alloc, mem⟩ complete further, ?_⟩
      intro enough
      apply ends
      exact Nat.lt_of_lt_of_le less (Nat.le_of_lt_succ enough)

theorem sweep_on_timer_sweeps (layout : heap.Layout) {turns : Nat} :
    Sweeps heap (heap.sweepOnTimer turns) := by
  unfold sweepOnTimer
  split
  · exact Sweeps.refl heap
  · split
    · exact Sweeps.refl heap
    · rename_i active runs
      exact (sweep_slice_sweeps layout (by simpa using active)
        (by simpa [isGcDeferred] using runs)).1

theorem finish_pending_sweeps (layout : heap.Layout) :
    Sweeps heap heap.finishPendingIncrementalSweep ∧ (heap.gcDeferrals = 0 →
        heap.finishPendingIncrementalSweep.incrementalSweepActive = false) := by
  unfold finishPendingIncrementalSweep
  split
  · rename_i skipped
    refine ⟨Sweeps.refl heap, ?_⟩
    intro runs
    simpa [isGcDeferred, runs] using skipped
  · rename_i entered
    have conditions : heap.incrementalSweepActive = true ∧ heap.gcDeferrals = 0 := by
      simpa [isGcDeferred] using entered
    obtain ⟨sweeps, ends⟩ := sweep_slice_sweeps layout conditions.1 conditions.2
    exact ⟨sweeps, fun _ => ends (Nat.lt_succ_self _)⟩

theorem sweep_own_blocks_sweeps (layout : heap.Layout)
    (active : heap.incrementalSweepActive = true) (alloc turns : Nat) :
    Sweeps heap (heap.sweepOwnBlocks alloc turns) := by
  induction turns generalizing heap with
  | zero => exact Sweeps.refl heap
  | succ _ ih =>
    unfold sweepOwnBlocks
    split
    · split
      · exact Sweeps.refl heap
      · rename_i idx others waiting
        have pending : idx ∈ (heap.allocators alloc).blocksPendingSweep := by
          rw [waiting]
          exact mem_cons_self
        obtain ⟨block, found, -⟩ := layout.pending_owner pending
        have sameQueue : (heap.sweepBlock idx).allocatorsToSweep = heap.allocatorsToSweep := by
          simp [sweepBlock, found]
        have sweptLayout := sweep_block_layout found layout active
        apply Sweeps.block idx heap.allocatorsToSweep active ⟨alloc, pending⟩
        · intro other stillPending
          exact layout.pendingFound other (sweep_block_pending_ne_nil found stillPending)
        · rw [← sameQueue]
          exact ih sweptLayout ((sweep_block_active idx).trans active)
    · exact Sweeps.refl heap

end
end Ladybone.GC.Heap
