import Ladybone.GC.Sweeping

/-!
# Allocation, marking and mutation keep the book-keeping

What each remaining operation does to blocks, lists and mark bits.
-/

namespace Ladybone.GC.Heap

open List Function

variable {heap other : Heap}

theorem is_live_congr {addr : Address} (same : other.cellAt addr = heap.cellAt addr) :
    other.isLive addr = heap.isLive addr := by
  rw [Bool.eq_iff_iff, is_live_iff, is_live_iff, same]

theorem Layout.relist (layout : heap.Layout)
    (marks : ∀ addr, other.isLive addr = true → other.marks addr = true →
      heap.isLive addr = true ∧ heap.marks addr = true)
    (blocks : ∀ idx block, other.blocks idx = some block → block.WellFormed ∧
      idx ∈ (other.allocators block.allocator).blocks ∧ block.allocator ∈ other.allCellAllocators)
    (owned : ∀ alloc idx, idx ∈ (other.allocators alloc).blocks →
      ∃ block, other.blocks idx = some block ∧ block.allocator = alloc)
    (nodup : ∀ alloc, (other.allocators alloc).blocks.Nodup)
    (grown : ∀ alloc idx, idx ∈ (heap.allocators alloc).blocks →
      idx ∈ (other.allocators alloc).blocks)
    (pending : ∀ alloc, (other.allocators alloc).blocksPendingSweep =
      (heap.allocators alloc).blocksPendingSweep)
    (queue : other.allocatorsToSweep = heap.allocatorsToSweep)
    (active : other.incrementalSweepActive = heap.incrementalSweepActive)
    (recorded : other.cellsAllocatedDuringSweep = heap.cellsAllocatedDuringSweep) :
    other.Layout := by
  have pendingIff : ∀ idx, other.Pending idx ↔ heap.Pending idx := by
    simp [Pending, pending]
  constructor
  · exact fun idx block found => (blocks idx block found).1
  · exact fun idx block found => (blocks idx block found).2
  · exact owned
  · exact nodup
  · intro alloc idx waiting
    rw [pending] at waiting
    exact grown alloc idx (layout.pendingListed alloc idx waiting)
  · intro alloc
    rw [pending]
    exact layout.pendingNodup alloc
  · intro alloc waiting
    rw [pending] at waiting
    rw [queue]
    exact layout.pendingFound alloc waiting
  · intro idle idx
    rw [active] at idle
    rw [pendingIff]
    exact layout.idle idle idx
  · intro idle addr live
    rw [active] at idle
    by_contra marked
    obtain ⟨wasLive, wasMarked⟩ := marks addr live (Bool.not_eq_false _ ▸ marked)
    rw [layout.marksIdle idle addr wasLive] at wasMarked
    cases wasMarked
  · intro runs addr live marked
    rw [active] at runs
    rw [pendingIff, recorded]
    obtain ⟨wasLive, wasMarked⟩ := marks addr live marked
    exact layout.marksActive runs addr wasLive wasMarked

/-! ## Allocation -/

theorem register_cell_allocator_layout (layout : heap.Layout) {alloc : Nat} :
    (heap.registerCellAllocator alloc).Layout := by
  unfold registerCellAllocator
  split
  · exact layout
  · refine { layout with listed := ?_ }
    intro idx block found
    obtain ⟨listed, registered⟩ := layout.listed idx block found
    exact ⟨listed, mem_append_left _ registered⟩

theorem mem_register_cell_allocator {alloc : Nat} :
    alloc ∈ (heap.registerCellAllocator alloc).allCellAllocators := by
  unfold registerCellAllocator
  split
  · assumption
  · exact mem_append_right _ mem_cons_self

theorem add_block_cases {ready : Heap} {alloc newBlock : Nat}
    (added : heap.addBlock alloc newBlock = some ready) :
    ready = heap ∨ ((heap.allocators alloc).usableBlocks = [] ∧ heap.blocks newBlock = none ∧
      ready = heap.withBlock alloc newBlock) := by
  unfold addBlock at added
  split at added
  · rename_i empty
    split at added
    · cases added
    · rename_i unused
      cases added
      exact .inr ⟨isEmpty_iff.mp empty, unused, rfl⟩
  · cases added
    exact .inl rfl

section
variable (alloc : Nat) {newBlock : Nat}

theorem with_block_cell_at (unused : heap.blocks newBlock = none) (addr : Address) :
    (heap.withBlock alloc newBlock).cellAt addr = heap.cellAt addr := by
  by_cases here : addr.block = newBlock
  · simp [cellAt, withBlock, here, unused, HeapBlock.create]
  · simp [cellAt, withBlock, update_of_ne here]

variable {alloc}

theorem with_block_pending (owner : Nat) :
    ((heap.withBlock alloc newBlock).allocators owner).blocksPendingSweep =
      (heap.allocators owner).blocksPendingSweep := by
  simp only [withBlock]
  by_cases same : owner = alloc
  · rw [same, update_self]
  · rw [update_of_ne same]

theorem mem_with_block_blocks {owner idx : Nat} :
    idx ∈ ((heap.withBlock alloc newBlock).allocators owner).blocks ↔
      idx ∈ (heap.allocators owner).blocks ∨ (owner = alloc ∧ idx = newBlock) := by
  simp only [withBlock]
  by_cases same : owner = alloc
  · subst same
    simp [CellAllocator.blocks, or_assoc]
  · simp [same]

theorem with_block_layout (layout : heap.Layout) (registered : alloc ∈ heap.allCellAllocators)
    (unused : heap.blocks newBlock = none) : (heap.withBlock alloc newBlock).Layout := by
  have unlisted : ∀ owner, newBlock ∉ (heap.allocators owner).blocks := by
    intro owner mem
    obtain ⟨block, found, -⟩ := layout.owned owner newBlock mem
    rw [unused] at found
    cases found
  refine layout.relist ?_ ?_ ?_ ?_ ?_ with_block_pending rfl rfl rfl
  · intro addr live marked
    rw [is_live_congr (with_block_cell_at alloc unused addr)] at live
    exact ⟨live, marked⟩
  · intro idx block found
    rw [mem_with_block_blocks]
    simp only [withBlock] at found
    by_cases here : idx = newBlock
    · subst here
      rw [update_self] at found
      cases found
      exact ⟨⟨nodup_nil, by simp [HeapBlock.create]⟩, .inr ⟨rfl, rfl⟩, registered⟩
    · rw [update_of_ne here] at found
      obtain ⟨listed, known⟩ := layout.listed idx block found
      exact ⟨layout.wellFormed idx block found, .inl listed, known⟩
  · intro owner idx mem
    simp only [withBlock]
    rcases mem_with_block_blocks.mp mem with old | ⟨rfl, rfl⟩
    · have here : idx ≠ newBlock := fun equal => unlisted owner (equal ▸ old)
      rw [update_of_ne here]
      exact layout.owned owner idx old
    · rw [update_self]
      exact ⟨_, rfl, rfl⟩
  · intro owner
    simp only [withBlock]
    by_cases same : owner = alloc
    · subst same
      rw [update_self, CellAllocator.blocks, ← append_assoc]
      refine nodup_append.mpr ⟨layout.nodup owner, by simp, ?_⟩
      intro first old second last
      rw [mem_singleton.mp last]
      intro equal
      exact unlisted owner (equal ▸ old)
    · rw [update_of_ne same]
      exact layout.nodup owner
  · intro owner idx mem
    exact mem_with_block_blocks.mpr (.inl mem)

end

structure SameMutator (before after : Heap) : Prop where
  roots : after.roots = before.roots
  weaks : after.weaks = before.weaks
  weakImpls : after.weakImpls = before.weakImpls
  scopes : after.scopes = before.scopes
  gcDeferrals : after.gcDeferrals = before.gcDeferrals

theorem after_taking_blocks {owner : CellAllocator} {idx : Nat} {full : Bool}
    (nodup : owner.blocks.Nodup) (usable : idx ∈ owner.usableBlocks) :
    (afterTaking owner idx full).blocks.Nodup ∧
      ∀ other, other ∈ (afterTaking owner idx full).blocks ↔ other ∈ owner.blocks := by
  obtain ⟨fullNodup, usableNodup, apart⟩ := nodup_append.mp nodup
  unfold afterTaking
  split
  · constructor
    · refine nodup_append.mpr ⟨?_, usableNodup.erase _, ?_⟩
      · refine nodup_append.mpr ⟨fullNodup, by simp, ?_⟩
        intro first old second last
        rw [mem_singleton.mp last]
        exact apart first old idx usable
      · intro first mem second remaining
        obtain ⟨different, stillUsable⟩ := usableNodup.mem_erase_iff.mp remaining
        rcases mem_append.mp mem with old | last
        · exact apart first old second stillUsable
        · cases mem_singleton.mp last
          exact Ne.symm different
    · intro other
      simp only [CellAllocator.blocks, mem_append, mem_singleton, usableNodup.mem_erase_iff]
      constructor
      · rintro ((old | rfl) | ⟨-, remaining⟩)
        · exact .inl old
        · exact .inr usable
        · exact .inr remaining
      · intro mem
        by_cases same : other = idx
        · exact .inl (.inr same)
        · exact mem.imp .inl fun remaining => ⟨same, remaining⟩
  · exact ⟨nodup, fun _ => Iff.rfl⟩

section
variable {alloc idx pos : Nat} {block changed : HeapBlock} {cell : Cell}
  (cells : ∀ place, changed.cells[place]? = if place = pos then some cell else block.cells[place]?)
  (usable : idx ∈ (heap.allocators alloc).usableBlocks)

theorem hand_out_pending (owner : Nat) :
    ((heap.handOut alloc idx pos changed).allocators owner).blocksPendingSweep =
      (heap.allocators owner).blocksPendingSweep := by
  simp only [handOut]
  by_cases same : owner = alloc
  · rw [same, update_self]
    unfold afterTaking
    split <;> rfl
  · rw [update_of_ne same]

include usable in
theorem mem_hand_out_blocks (layout : heap.Layout) {owner place : Nat} :
    place ∈ ((heap.handOut alloc idx pos changed).allocators owner).blocks ↔
      place ∈ (heap.allocators owner).blocks := by
  simp only [handOut]
  by_cases same : owner = alloc
  · rw [same, update_self]
    exact (after_taking_blocks (layout.nodup alloc) usable).2 place
  · rw [update_of_ne same]

include cells in
theorem hand_out_cell_at (found : heap.blocks idx = some block) (addr : Address) :
    (heap.handOut alloc idx pos changed).cellAt addr =
      if addr = ⟨idx, pos⟩ then some cell else heap.cellAt addr := by
  obtain ⟨place, slot⟩ := addr
  simp only [cellAt, handOut]
  by_cases here : place = idx
  · subst here
    rw [found]
    simp [cells]
  · simp [here]

include cells usable in
theorem hand_out_layout (layout : heap.Layout) (found : heap.blocks idx = some block)
    (formed : changed.WellFormed) (owner : changed.allocator = block.allocator) :
    (heap.handOut alloc idx pos changed).Layout := by
  refine layout.relist ?_ ?_ ?_ ?_ ?_ hand_out_pending rfl rfl rfl
  · intro addr live marked
    simp only [handOut] at marked
    have other : addr ≠ ⟨idx, pos⟩ := by
      rintro rfl
      rw [update_self] at marked
      cases marked
    rw [is_live_congr ((hand_out_cell_at cells found addr).trans (if_neg other))] at live
    rw [update_of_ne other] at marked
    exact ⟨live, marked⟩
  · intro place other there
    rw [mem_hand_out_blocks usable layout]
    simp only [handOut] at there ⊢
    by_cases here : place = idx
    · subst here
      rw [update_self] at there
      cases there
      rw [owner]
      exact ⟨formed, layout.listed place block found⟩
    · rw [update_of_ne here] at there
      exact ⟨layout.wellFormed place other there, layout.listed place other there⟩
  · intro other place mem
    obtain ⟨known, knownFound, owns⟩ := layout.owned other place
      ((mem_hand_out_blocks usable layout).mp mem)
    simp only [handOut]
    by_cases here : place = idx
    · subst here
      cases found.symm.trans knownFound
      rw [update_self]
      exact ⟨changed, rfl, owner.trans owns⟩
    · rw [update_of_ne here]
      exact ⟨known, knownFound, owns⟩
  · intro other
    simp only [handOut]
    by_cases same : other = alloc
    · rw [same, update_self]
      exact (after_taking_blocks (layout.nodup alloc) usable).1
    · rw [update_of_ne same]
      exact layout.nodup other
  · intro other place mem
    exact (mem_hand_out_blocks usable layout).mpr mem

include usable in
theorem hand_out_sorted (layout : heap.Layout) (found : heap.blocks idx = some block)
    (owner : changed.allocator = block.allocator) (listed : changed.Listed)
    (sorted : ∀ place other, heap.blocks place = some other → other.Listed ∧ (place ≠ idx →
      (place ∈ (heap.allocators other.allocator).usableBlocks ↔ other.isFull = false))) :
    (heap.handOut alloc idx pos changed).Sorted := by
  intro place other there
  obtain ⟨known, knownFound, owns⟩ := layout.owned alloc idx (mem_append_right _ usable)
  cases found.symm.trans knownFound
  simp only [handOut] at there ⊢
  by_cases here : place = idx
  · subst here
    rw [update_self] at there
    cases there
    have nodup := (nodup_append.mp (layout.nodup alloc)).2.1
    refine ⟨listed, ?_⟩
    rw [owner, owns, afterTaking]
    split_ifs with full
    · simp [nodup.mem_erase_iff, full]
    · simp [usable, full]
  · rw [update_of_ne here] at there
    refine ⟨(sorted place other there).1, ?_⟩
    rw [← (sorted place other there).2 here]
    by_cases same : other.allocator = alloc
    · rw [same, update_self, afterTaking]
      split_ifs <;> simp [mem_erase_of_ne here]
    · rw [update_of_ne same]

end

/-- A cell taken from the heap: its slot was free, it starts unmarked and without edges, and
nothing else changes. -/
structure Taken (before after : Heap) (cell : Reference) : Prop where
  free : before.isLive cell.address = false
  cells : ∀ address, after.cellAt address =
    if address = cell.address then some ⟨.live, cell.identity, []⟩ else before.cellAt address
  marks : ∀ address, address ≠ cell.address → after.marks address = before.marks address
  same : SameMutator before after
  active : after.incrementalSweepActive = before.incrementalSweepActive
  pending : ∀ index, after.Pending index ↔ before.Pending index
  layout : after.Layout

theorem take_cell_taken {cell : Reference} {after : Heap} {alloc : Nat} (layout : heap.Layout)
    (taken : heap.takeCell alloc = some (cell, after)) :
    Taken heap after cell ∧ cell.identity = heap.nextIdentity ∧
      after.nextIdentity = heap.nextIdentity + 1 ∧
      ((∀ idx block, heap.blocks idx = some block → block.Listed ∧
        ((heap.allocators alloc).usableBlocks.getLast? ≠ some idx →
        (idx ∈ (heap.allocators block.allocator).usableBlocks ↔ block.isFull = false))) →
      after.Sorted) := by
  unfold takeCell at taken
  split at taken
  · cases taken
  · rename_i idx last
    have usable : idx ∈ (heap.allocators alloc).usableBlocks := mem_of_getLast? last
    split at taken
    · cases taken
    · rename_i block found
      split at taken
      · cases taken
      · rename_i pos changed allocated
        obtain ⟨free, formed, owner, cells⟩ :=
          HeapBlock.allocate_spec (layout.wellFormed idx block found) allocated
        cases taken
        refine ⟨⟨?_, hand_out_cell_at cells found, ?_, ⟨rfl, rfl, rfl, rfl, rfl⟩, rfl, ?_,
          hand_out_layout cells usable layout found formed owner⟩, rfl, rfl, fun sorted =>
          hand_out_sorted usable layout found owner
            ((sorted idx block found).1.allocate rfl allocated) fun place other there =>
            ⟨(sorted place other there).1, fun elsewhere =>
              (sorted place other there).2 (by simpa [last] using elsewhere.symm)⟩⟩
        · rwa [is_live_of_block found]
        · intro addr other
          exact update_of_ne other _ _
        · intro place
          simp [Pending, hand_out_pending]

/-! ## Mutation of a cell -/

section
variable {addr : Address} {change : Cell → Cell}

theorem update_cell_cell_at {other : Address} :
    (heap.updateCell addr change).cellAt other =
      if other = addr then (heap.cellAt other).map change else heap.cellAt other := by
  obtain ⟨idx, pos⟩ := addr
  obtain ⟨place, slot⟩ := other
  unfold updateCell
  split
  · rename_i missing
    by_cases same : (⟨place, slot⟩ : Address) = ⟨idx, pos⟩
    · cases same
      simp [cellAt, missing]
    · rw [if_neg same]
  · rename_i block found
    by_cases here : place = idx
    · subst here
      simp only [cellAt, update_self, found, Address.mk.injEq]
      by_cases same : slot = pos
      · subst same
        simp
      · simp [same, Ne.symm same]
    · simp [cellAt, here]

theorem update_cell_layout (keeps : ∀ cell, (change cell).state = cell.state)
    (layout : heap.Layout) : (heap.updateCell addr change).Layout := by
  have lives (other : Address) :
      (heap.updateCell addr change).isLive other = heap.isLive other := by
    rw [Bool.eq_iff_iff, is_live_iff, is_live_iff, update_cell_cell_at]
    split
    · cases heap.cellAt other with
      | none => simp
      | some => simp [keeps]
    · rfl
  unfold updateCell at lives ⊢
  split at lives
  · exact layout
  · rename_i block found
    refine layout.relist ?_ ?_ ?_ layout.nodup (fun _ _ mem => mem) (fun _ => rfl) rfl rfl rfl
    · intro other live marked
      rw [lives] at live
      exact ⟨live, marked⟩
    · intro idx other there
      simp only at there ⊢
      by_cases here : idx = addr.block
      · subst here
        rw [update_self] at there
        cases there
        have formed := layout.wellFormed _ block found
        refine ⟨⟨formed.nodup, ?_⟩, layout.listed _ block found⟩
        intro pos free
        obtain ⟨cell, cellFound, dead⟩ := formed.dead pos free
        simp only [getElem?_modify, cellFound]
        split
        · exact ⟨change cell, rfl, (keeps cell).trans dead⟩
        · exact ⟨cell, rfl, dead⟩
      · rw [update_of_ne here] at there
        exact ⟨layout.wellFormed idx other there, layout.listed idx other there⟩
    · intro alloc idx mem
      obtain ⟨known, knownFound, owns⟩ := layout.owned alloc idx mem
      simp only
      by_cases here : idx = addr.block
      · subst here
        cases found.symm.trans knownFound
        rw [update_self]
        exact ⟨_, rfl, owns⟩
      · rw [update_of_ne here]
        exact ⟨known, knownFound, owns⟩

end

/-! ## Starting a sweep -/

section
variable (layout : heap.Layout) (idle : heap.incrementalSweepActive = false)

include layout idle

theorem none_pending (alloc : Nat) : (heap.allocators alloc).blocksPendingSweep = [] :=
  eq_nil_iff_forall_not_mem.mpr fun other pending => layout.idle idle other ⟨alloc, pending⟩

theorem mem_start_pending (alloc idx : Nat) :
    idx ∈ (heap.startIncrementalSweep.allocators alloc).blocksPendingSweep ↔
      idx ∈ (heap.allocators alloc).blocks := by
  have empty := none_pending layout idle alloc
  simp only [startIncrementalSweep]
  split
  · simp [empty]
  · rename_i unregistered
    rw [empty]
    constructor
    · intro mem
      exact absurd mem not_mem_nil
    · intro mem
      obtain ⟨block, found, rfl⟩ := layout.owned alloc idx mem
      exact absurd (layout.listed idx block found).2 unregistered

omit layout idle in
theorem start_blocks (alloc : Nat) :
    (heap.startIncrementalSweep.allocators alloc).blocks = (heap.allocators alloc).blocks := by
  simp only [startIncrementalSweep]
  split <;> rfl

theorem start_pending {idx : Nat} {block : HeapBlock} (found : heap.blocks idx = some block) :
    heap.startIncrementalSweep.Pending idx :=
  ⟨block.allocator, (mem_start_pending layout idle _ _).mpr (layout.listed idx block found).1⟩

theorem start_layout {marked : Address → Bool} {impls : Nat → WeakImpl} :
    Layout { heap with marks := marked, weakImpls := impls }.startIncrementalSweep := by
  have pendingIff := mem_start_pending layout idle
  refine ⟨layout.wellFormed, ?_, ?_, ?_, ?_, ?_, ?_, ?_, ?_, ?_⟩
  · intro idx block found
    obtain ⟨listed, registered⟩ := layout.listed idx block found
    exact ⟨(start_blocks block.allocator).symm ▸ listed, registered⟩
  · intro alloc idx mem
    exact layout.owned alloc idx ((start_blocks alloc) ▸ mem)
  · intro alloc
    exact (start_blocks alloc).symm ▸ layout.nodup alloc
  · intro alloc idx pending
    exact (start_blocks alloc).symm ▸ (pendingIff alloc idx).mp pending
  · intro alloc
    have nodup := layout.nodup alloc
    have empty := none_pending layout idle alloc
    simp only [startIncrementalSweep]
    split
    · simpa [empty] using nodup
    · rw [empty]
      exact nodup_nil
  · intro alloc pending
    obtain ⟨idx, mem⟩ := exists_mem_of_ne_nil _ pending
    have listed := (pendingIff alloc idx).mp mem
    obtain ⟨block, found, rfl⟩ := layout.owned alloc idx listed
    refine mem_append_right _ (mem_filter.mpr ⟨(layout.listed idx block found).2, ?_⟩)
    simp only [Bool.not_eq_eq_eq_not, Bool.not_true, isEmpty_eq_false_iff]
    exact pending
  · intro runs
    cases runs
  · intro runs
    cases runs
  · intro _ addr live _
    obtain ⟨cell, there, -⟩ := is_live_iff.mp live
    obtain ⟨block, found, -⟩ := block_of_cell_at there
    exact .inl (start_pending layout idle found)

end
end Ladybone.GC.Heap
