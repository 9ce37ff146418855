import Ladybone.GC.Heap

/-!
# Book-keeping of the heap

What holds of the blocks, their lists and the mark bits in every state: a free list names
dead cells only, every block stands on exactly one list of its allocator, pending blocks
are found by the sweeper, and outside a sweep no live cell is marked.
-/

namespace Ladybone.GC

open List Option Function

/-! ## Blocks -/

namespace HeapBlock

structure WellFormed (block : HeapBlock) : Prop where
  nodup : block.freelist.Nodup
  dead : ∀ index ∈ block.freelist, ∃ cell, block.cells[index]? = some cell ∧ cell.state = .dead

variable {idx : Nat}

theorem is_live_iff {block : HeapBlock} :
    block.isLive idx = true ↔ ∃ cell, block.cells[idx]? = some cell ∧ cell.state = .live := by
  unfold isLive
  cases block.cells[idx]? with
  | none => simp
  | some => simp

def sweptCell (marked : Bool) (cell : Cell) : Cell :=
  if cell.state = .live ∧ marked = false then freelistEntry else cell

variable {marked : Nat → Bool} {block changed : HeapBlock} {cell : Cell}

theorem sweep_cell_cells {idx pos : Nat} :
    (sweepCell marked block idx).cells[pos]? =
      if pos = idx then block.cells[pos]?.map (sweptCell (marked pos))
      else block.cells[pos]? := by
  unfold sweepCell
  by_cases swept : (block.isLive idx && !marked idx) = true
  · rw [if_pos swept]
    simp only [Bool.and_eq_true] at swept
    obtain ⟨cell, found, live⟩ := is_live_iff.mp swept.1
    simp only [deallocate]
    by_cases here : pos = idx
    · subst here
      have bound : pos < block.cells.length := (List.getElem?_eq_some_iff.mp found).1
      rw [if_pos rfl, getElem?_set_self bound, found, map_some, sweptCell,
        if_pos ⟨live, by simpa using swept.2⟩]
    · rw [if_neg here, getElem?_set_ne (Ne.symm here)]
  · rw [if_neg swept]
    by_cases here : pos = idx
    · subst here
      rw [if_pos rfl]
      cases found : block.cells[pos]? with
      | none => rfl
      | some cell =>
        have unchanged : ¬ (cell.state = .live ∧ marked pos = false) := by
          rintro ⟨live, unmarked⟩
          apply swept
          simp [is_live_iff.mpr ⟨cell, found, live⟩, unmarked]
        rw [map_some, sweptCell, if_neg unchanged]
    · rw [if_neg here]

theorem sweep_cell_well_formed (wellFormed : block.WellFormed) :
    (sweepCell marked block idx).WellFormed := by
  unfold sweepCell
  split
  · rename_i swept
    simp only [Bool.and_eq_true] at swept
    obtain ⟨cell, found, live⟩ := is_live_iff.mp swept.1
    have bound : idx < block.cells.length := (List.getElem?_eq_some_iff.mp found).1
    constructor
    · refine nodup_cons.mpr ⟨?_, wellFormed.nodup⟩
      intro free
      obtain ⟨other, otherFound, dead⟩ := wellFormed.dead idx free
      rw [found] at otherFound
      cases otherFound
      rw [live] at dead
      cases dead
    · intro pos free
      by_cases here : pos = idx
      · subst here
        exact ⟨freelistEntry, getElem?_set_self bound, rfl⟩
      · have earlier : pos ∈ block.freelist := (mem_cons.mp free).resolve_left here
        obtain ⟨other, otherFound, dead⟩ := wellFormed.dead pos earlier
        exact ⟨other, (getElem?_set_ne (Ne.symm here)).trans otherFound, dead⟩
  · exact wellFormed

theorem sweep_loop (wellFormed : block.WellFormed) {count : Nat} :
    let swept := (List.range count).foldl (sweepCell marked) block
    swept.WellFormed ∧ swept.allocator = block.allocator ∧ ∀ pos, swept.cells[pos]? =
        if pos < count then block.cells[pos]?.map (sweptCell (marked pos))
        else block.cells[pos]? := by
  induction count with
  | zero => exact ⟨wellFormed, rfl, fun pos => by simp⟩
  | succ count ih =>
    obtain ⟨formed, owner, cells⟩ := ih
    simp only [range_succ, foldl_append, foldl_cons, foldl_nil]
    refine ⟨sweep_cell_well_formed formed, ?_, fun pos => ?_⟩
    · rw [← owner, sweepCell]
      split <;> rfl
    rw [sweep_cell_cells, cells]
    by_cases here : pos = count
    · subst here
      rw [if_pos rfl, if_neg (Nat.lt_irrefl _), if_pos (Nat.lt_succ_self _)]
    · rw [if_neg here]
      by_cases earlier : pos < count
      · rw [if_pos earlier, if_pos (by omega)]
      · rw [if_neg earlier, if_neg (by omega)]

theorem sweep_spec (marked : Nat → Bool) (wellFormed : block.WellFormed) :
    (block.sweep marked).WellFormed ∧ (block.sweep marked).allocator = block.allocator ∧
      ∀ pos, (block.sweep marked).cells[pos]? = block.cells[pos]?.map (sweptCell (marked pos)) := by
  obtain ⟨formed, owner, cells⟩ := sweep_loop wellFormed
  refine ⟨formed, owner, ?_⟩
  intro pos
  rw [sweep, cells]
  split
  · rfl
  · rename_i beyond
    rw [getElem?_eq_none (Nat.le_of_not_lt beyond), map_none]

theorem allocate_spec (wellFormed : block.WellFormed)
    (allocated : block.allocate cell = some (idx, changed)) :
    block.isLive idx = false ∧ changed.WellFormed ∧ changed.allocator = block.allocator ∧
      ∀ pos, changed.cells[pos]? = if pos = idx then some cell else block.cells[pos]? := by
  unfold allocate at allocated
  split at allocated
  · rename_i first rest freelist
    cases allocated
    obtain ⟨entry, found, dead⟩ := wellFormed.dead idx (by rw [freelist]; exact mem_cons_self)
    have bound : idx < block.cells.length := (List.getElem?_eq_some_iff.mp found).1
    have nodup := wellFormed.nodup
    rw [freelist] at nodup
    obtain ⟨notAgain, restNodup⟩ := nodup_cons.mp nodup
    refine ⟨?_, ⟨restNodup, ?_⟩, rfl, ?_⟩
    · unfold isLive
      rw [found]
      simp [dead]
    · intro pos free
      have other : pos ≠ idx := fun equal => notAgain (equal ▸ free)
      obtain ⟨entry, entryFound, entryDead⟩ := wellFormed.dead pos
        (by rw [freelist]; exact mem_cons_of_mem _ free)
      exact ⟨entry, (getElem?_set_ne (Ne.symm other)).trans entryFound, entryDead⟩
    · intro pos
      by_cases here : pos = idx
      · subst here
        rw [if_pos rfl]
        exact getElem?_set_self bound
      · rw [if_neg here]
        exact getElem?_set_ne (Ne.symm here)
  · rename_i freelist
    split at allocated
    · cases allocated
      refine ⟨?_, ⟨?_, ?_⟩, rfl, ?_⟩
      · unfold isLive
        rw [getElem?_eq_none (Nat.le_refl _)]
      · exact wellFormed.nodup
      · intro pos free
        rw [freelist] at free
        exact absurd free not_mem_nil
      · intro pos
        by_cases here : pos = block.cells.length
        · subst here
          rw [if_pos rfl]
          exact getElem?_concat_length
        · rw [if_neg here]
          by_cases inside : pos < block.cells.length
          · exact getElem?_append_left inside
          · rw [getElem?_eq_none (by simp; omega), getElem?_eq_none (by omega)]
    · cases allocated

/-- Every dead cell is on the free list. -/
def Listed (block : HeapBlock) : Prop :=
  block.cells.length ≤ block.cellCount ∧
    ∀ pos cell, block.cells[pos]? = some cell → cell.state = .dead → pos ∈ block.freelist

theorem not_full_iff (formed : block.WellFormed) (listed : block.Listed) :
    block.isFull = false ↔ ∃ pos < block.cellCount, block.isLive pos = false := by
  have inside := listed.1
  simp only [isFull, isLive, Bool.and_eq_false_iff, Bool.not_eq_eq_eq_not, Bool.not_false,
    decide_eq_true_eq, isEmpty_eq_false_iff]
  constructor
  · rintro (room | free)
    · exact ⟨block.cells.length, room, by simp⟩
    · obtain ⟨pos, free⟩ := exists_mem_of_ne_nil _ free
      obtain ⟨cell, there, dead⟩ := formed.dead pos free
      have bound := (List.getElem?_eq_some_iff.mp there).1
      exact ⟨pos, by omega, by simp [there, dead]⟩
  · rintro ⟨pos, bound, notLive⟩
    cases there : block.cells[pos]? with
    | none =>
      have := getElem?_eq_none_iff.mp there
      exact .inl (by omega)
    | some cell =>
      have dead : cell.state = .dead := by
        cases state : cell.state with
        | dead => rfl
        | live => simp [there, state] at notLive
      exact .inr (ne_nil_of_mem (listed.2 pos cell there dead))

theorem Listed.allocate (listed : block.Listed)
    (live : cell.state = .live) (allocated : block.allocate cell = some (idx, changed)) :
    changed.Listed := by
  unfold HeapBlock.allocate at allocated
  unfold Listed at *
  grind

theorem Listed.sweep (listed : block.Listed) (marked : Nat → Bool) :
    (block.sweep marked).Listed := by
  refine foldlRecOn (motive := Listed) _ _ listed fun swept listed idx _ => ?_
  unfold sweepCell deallocate
  unfold Listed at *
  grind

end HeapBlock

/-! ## Lists of blocks -/

namespace Heap

section
variable {alloc : CellAllocator} {idx : Nat} (hasLive becameUsable : Bool)

theorem reclassify_pending :
    (reclassify alloc idx hasLive becameUsable).blocksPendingSweep =
      alloc.blocksPendingSweep.erase idx := by
  unfold reclassify
  split
  · rfl
  · split <;> rfl

theorem mem_reclassify (nodup : alloc.blocks.Nodup) (mem : idx ∈ alloc.blocks) {other : Nat} :
    other ∈ (reclassify alloc idx hasLive becameUsable).blocks ↔
      other ∈ alloc.blocks ∧ (hasLive = true ∨ other ≠ idx) := by
  obtain ⟨fullNodup, usableNodup, -⟩ := nodup_append.mp nodup
  unfold reclassify
  split
  · rename_i gone
    have dead : hasLive = false := by simpa using gone
    simp only [CellAllocator.blocks, mem_append, fullNodup.mem_erase_iff,
      usableNodup.mem_erase_iff, dead]
    tauto
  · rename_i stays
    have live : hasLive = true := by simpa using stays
    split
    · simp only [CellAllocator.blocks, mem_append, fullNodup.mem_erase_iff,
        usableNodup.mem_erase_iff, mem_singleton, live, true_or, and_true]
      constructor
      · rintro (⟨-, found⟩ | ⟨-, found⟩ | rfl)
        · exact .inl found
        · exact .inr found
        · exact mem_append.mp mem
      · intro found
        by_cases same : other = idx
        · exact .inr (.inr same)
        · exact found.imp (fun full => ⟨same, full⟩) fun usable => .inl ⟨same, usable⟩
    · simp [CellAllocator.blocks, live]

theorem reclassify_nodup (nodup : alloc.blocks.Nodup) :
    (reclassify alloc idx hasLive becameUsable).blocks.Nodup := by
  obtain ⟨fullNodup, usableNodup, apart⟩ := nodup_append.mp nodup
  unfold reclassify
  split
  · refine nodup_append.mpr ⟨fullNodup.erase _, usableNodup.erase _, ?_⟩
    intro first full second usable
    exact apart first (mem_of_mem_erase full) second (mem_of_mem_erase usable)
  · split
    · refine nodup_append.mpr ⟨fullNodup.erase _, ?_, ?_⟩
      · refine nodup_append.mpr ⟨usableNodup.erase _, by simp, ?_⟩
        intro first usable second last
        rw [mem_singleton.mp last]
        exact (usableNodup.mem_erase_iff.mp usable).1
      · intro first full
        refine forall_mem_append.mpr ⟨fun second usable => ?_, forall_mem_singleton.mpr ?_⟩
        · exact apart first (mem_of_mem_erase full) second (mem_of_mem_erase usable)
        · exact (fullNodup.mem_erase_iff.mp full).1
    · exact nodup

end

def Pending (heap : Heap) (index : Nat) : Prop :=
  ∃ allocator, index ∈ (heap.allocators allocator).blocksPendingSweep

structure Layout (heap : Heap) : Prop where
  wellFormed : ∀ index block, heap.blocks index = some block → block.WellFormed
  listed : ∀ index block, heap.blocks index = some block →
    index ∈ (heap.allocators block.allocator).blocks ∧ block.allocator ∈ heap.allCellAllocators
  owned : ∀ allocator index, index ∈ (heap.allocators allocator).blocks →
    ∃ block, heap.blocks index = some block ∧ block.allocator = allocator
  nodup : ∀ allocator, (heap.allocators allocator).blocks.Nodup
  pendingListed : ∀ allocator index, index ∈ (heap.allocators allocator).blocksPendingSweep →
    index ∈ (heap.allocators allocator).blocks
  pendingNodup : ∀ allocator, (heap.allocators allocator).blocksPendingSweep.Nodup
  pendingFound : ∀ allocator, (heap.allocators allocator).blocksPendingSweep ≠ [] →
    allocator ∈ heap.allocatorsToSweep
  idle : heap.incrementalSweepActive = false → ∀ index, ¬ heap.Pending index
  marksIdle : heap.incrementalSweepActive = false →
    ∀ address, heap.isLive address = true → heap.marks address = false
  marksActive : heap.incrementalSweepActive = true →
    ∀ address, heap.isLive address = true → heap.marks address = true →
      heap.Pending address.block ∨ address ∈ heap.cellsAllocatedDuringSweep

variable {heap : Heap} {addr : Address} {cell : Cell}

theorem Layout.pending_owner (layout : heap.Layout) {idx alloc : Nat}
    (pending : idx ∈ (heap.allocators alloc).blocksPendingSweep) :
    ∃ block, heap.blocks idx = some block ∧ block.allocator = alloc :=
  layout.owned alloc idx (layout.pendingListed alloc idx pending)

theorem is_live_iff :
    heap.isLive addr = true ↔ ∃ cell, heap.cellAt addr = some cell ∧ cell.state = .live := by
  unfold isLive cellAt
  cases heap.blocks addr.block with
  | none => simp
  | some => exact HeapBlock.is_live_iff

theorem block_of_cell_at (there : heap.cellAt addr = some cell) :
    ∃ block, heap.blocks addr.block = some block ∧ block.cells[addr.index]? = some cell := by
  unfold cellAt at there
  split at there
  · rename_i block found
    exact ⟨block, found, there⟩
  · cases there

theorem is_live_of_block {idx cell : Nat} {block : HeapBlock}
    (found : heap.blocks idx = some block) : heap.isLive ⟨idx, cell⟩ = block.isLive cell := by
  simp [isLive, found]

/-! ## Sweeping a block -/

section
variable {idx : Nat} {block : HeapBlock}

section
variable (found : heap.blocks idx = some block)

include found

theorem sweep_block_allocators_pending {alloc : Nat} :
    ((heap.sweepBlock idx).allocators alloc).blocksPendingSweep =
      if alloc = block.allocator then
        (heap.allocators alloc).blocksPendingSweep.erase idx
      else (heap.allocators alloc).blocksPendingSweep := by
  simp only [sweepBlock, found]
  by_cases same : alloc = block.allocator
  · subst same
    rw [if_pos rfl, update_self, reclassify_pending]
  · rw [if_neg same, update_of_ne same]

section
variable (layout : heap.Layout)

include layout

theorem sweep_block_pending {other : Nat} :
    (heap.sweepBlock idx).Pending other ↔ heap.Pending other ∧ other ≠ idx := by
  constructor
  · rintro ⟨alloc, pending⟩
    rw [sweep_block_allocators_pending found] at pending
    split at pending
    · have erased := (layout.pendingNodup alloc).mem_erase_iff.mp pending
      exact ⟨⟨alloc, erased.2⟩, erased.1⟩
    · rename_i elsewhere
      refine ⟨⟨alloc, pending⟩, ?_⟩
      rintro rfl
      obtain ⟨owner, ownerFound, owns⟩ := layout.pending_owner pending
      cases found.symm.trans ownerFound
      exact elsewhere owns.symm
  · rintro ⟨⟨alloc, pending⟩, different⟩
    refine ⟨alloc, ?_⟩
    rw [sweep_block_allocators_pending found]
    split
    · exact (layout.pendingNodup alloc).mem_erase_iff.mpr ⟨different, pending⟩
    · exact pending

theorem sweep_block_cell_at (there : heap.cellAt addr = some cell) (live : cell.state = .live)
    (kept : addr.block = idx → heap.marks addr = true) :
    (heap.sweepBlock idx).cellAt addr = some cell := by
  by_cases here : addr.block = idx
  · have wellFormed := layout.wellFormed idx block found
    have isMarked := kept here
    obtain ⟨place, pos⟩ := addr
    subst here
    have inBlock : block.cells[pos]? = some cell := by
      simpa only [cellAt, found] using there
    have hasLive : block.hasLiveCells (fun cell => heap.marks ⟨place, cell⟩) = true :=
      any_eq_true.mpr ⟨pos, mem_range.mpr (List.getElem?_eq_some_iff.mp inBlock).1, by
        simp [HeapBlock.isLive, inBlock, live, isMarked]⟩
    simp only [sweepBlock, found, cellAt, hasLive, if_pos, update_self]
    rw [(HeapBlock.sweep_spec _ wellFormed).2.2 pos, inBlock, map_some, HeapBlock.sweptCell]
    simp [isMarked]
  · simp only [sweepBlock, found, cellAt, update_of_ne here] at there ⊢
    exact there

theorem sweep_block_is_live (live : (heap.sweepBlock idx).isLive addr = true)
    : heap.isLive addr = true ∧ (addr.block = idx → heap.marks addr = true) := by
  by_cases here : addr.block = idx
  · obtain ⟨place, pos⟩ := addr
    subst here
    simp only [sweepBlock, found, isLive, update_self] at live
    split at live
    · rename_i swept stays
      split at stays
      · cases stays
        obtain ⟨cell, there, state⟩ := HeapBlock.is_live_iff.mp live
        rw [(HeapBlock.sweep_spec _ (layout.wellFormed place block found)).2.2 pos] at there
        obtain ⟨before, beforeFound, equal⟩ := map_eq_some_iff.mp there
        unfold HeapBlock.sweptCell at equal
        split at equal
        · rw [← equal] at state
          cases state
        · rename_i kept
          subst equal
          rw [is_live_of_block found]
          refine ⟨HeapBlock.is_live_iff.mpr ⟨before, beforeFound, state⟩, fun _ => ?_⟩
          by_contra unmarked
          exact kept ⟨state, Bool.eq_false_iff.mpr unmarked⟩
      · cases stays
    · cases live
  · refine ⟨?_, fun same => absurd same here⟩
    simpa only [sweepBlock, found, isLive, update_of_ne here] using live

theorem mem_sweep_block_blocks {alloc other : Nat} :
    other ∈ ((heap.sweepBlock idx).allocators alloc).blocks ↔
      other ∈ (heap.allocators alloc).blocks ∧
        (block.hasLiveCells (fun cell => heap.marks ⟨idx, cell⟩) = true ∨ other ≠ idx) := by
  simp only [sweepBlock, found]
  by_cases same : alloc = block.allocator
  · subst same
    rw [update_self]
    exact mem_reclassify _ _ (layout.nodup _) (layout.listed idx block found).1
  · rw [update_of_ne same, iff_self_and]
    intro listed
    right
    rintro rfl
    obtain ⟨owner, ownerFound, owns⟩ := layout.owned alloc other listed
    cases found.symm.trans ownerFound
    exact same owns.symm

theorem sweep_block_layout (active : heap.incrementalSweepActive = true) :
    (heap.sweepBlock idx).Layout := by
  obtain ⟨sweptFormed, sweptOwner, -⟩ := HeapBlock.sweep_spec
    (fun cell => heap.marks ⟨idx, cell⟩) (layout.wellFormed idx block found)
  have activeAfter : (heap.sweepBlock idx).incrementalSweepActive = true := by
    simp [sweepBlock, found, active]
  have known : (heap.sweepBlock idx).allCellAllocators = heap.allCellAllocators := by
    simp [sweepBlock, found]
  have blocks : ∀ place other, (heap.sweepBlock idx).blocks place = some other →
      place = idx ∧ block.hasLiveCells (fun cell => heap.marks ⟨idx, cell⟩) = true ∧
        other = block.sweep (fun cell => heap.marks ⟨idx, cell⟩) ∨
      place ≠ idx ∧ heap.blocks place = some other := by
    intro place other there
    simp only [sweepBlock, found] at there
    by_cases here : place = idx
    · rw [here, update_self, ite_none_right_eq_some] at there
      exact .inl ⟨here, there.1, (some.inj there.2).symm⟩
    · rw [update_of_ne here] at there
      exact .inr ⟨here, there⟩
  constructor
  · intro place other there
    rcases blocks place other there with ⟨-, -, rfl⟩ | ⟨-, there⟩
    · exact sweptFormed
    · exact layout.wellFormed place other there
  · intro place other there
    rw [mem_sweep_block_blocks found layout, known]
    rcases blocks place other there with ⟨rfl, hasLive, rfl⟩ | ⟨here, there⟩
    · rw [sweptOwner]
      obtain ⟨listed, registered⟩ := layout.listed place block found
      exact ⟨⟨listed, .inl hasLive⟩, registered⟩
    · obtain ⟨listed, registered⟩ := layout.listed place other there
      exact ⟨⟨listed, .inr here⟩, registered⟩
  · intro alloc place mem
    obtain ⟨listed, stays⟩ := (mem_sweep_block_blocks found layout).mp mem
    obtain ⟨owner, ownerFound, owns⟩ := layout.owned alloc place listed
    simp only [sweepBlock, found]
    by_cases here : place = idx
    · subst here
      cases found.symm.trans ownerFound
      rw [update_self, if_pos (stays.resolve_right fun different => different rfl)]
      exact ⟨_, rfl, sweptOwner.trans owns⟩
    · rw [update_of_ne here]
      exact ⟨owner, ownerFound, owns⟩
  · simp only [sweepBlock, found]
    exact (forall_update_iff heap.allocators fun _ alloc =>
      alloc.blocks.Nodup).mpr
        ⟨reclassify_nodup _ _ (layout.nodup _), fun alloc _ => layout.nodup alloc⟩
  · intro alloc place pending
    have different := ((sweep_block_pending found layout).mp ⟨alloc, pending⟩).2
    rw [mem_sweep_block_blocks found layout]
    refine ⟨layout.pendingListed alloc place ?_, .inr different⟩
    rw [sweep_block_allocators_pending found] at pending
    split at pending
    · exact mem_of_mem_erase pending
    · exact pending
  · intro alloc
    rw [sweep_block_allocators_pending found]
    split
    · exact (layout.pendingNodup _).erase _
    · exact layout.pendingNodup _
  · intro alloc pending
    rw [sweep_block_allocators_pending found] at pending
    have before := layout.pendingFound alloc fun empty => by simp [empty] at pending
    simpa only [sweepBlock, found] using before
  · intro idle
    rw [activeAfter] at idle
    cases idle
  · intro idle
    rw [activeAfter] at idle
    cases idle
  · intro _ addr live isMarked
    obtain ⟨wasLive, -⟩ := sweep_block_is_live found layout live
    simp only [sweepBlock, found] at isMarked
    split at isMarked
    · cases isMarked
    · rename_i other
      have elsewhere : addr.block ≠ idx := by
        intro here
        apply other
        refine ⟨here, ?_⟩
        obtain ⟨place, pos⟩ := addr
        subst here
        rwa [is_live_of_block found] at wasLive
      rcases layout.marksActive active addr wasLive isMarked with pending | recorded
      · exact .inl ((sweep_block_pending found layout).mpr ⟨pending, elsewhere⟩)
      · right
        simpa only [sweepBlock, found] using recorded

end
end
end
end Heap
end Ladybone.GC
