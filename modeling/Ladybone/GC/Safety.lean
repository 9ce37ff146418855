import Ladybone.GC.Operations
import Ladybone.Support.Runs

/-!
# No reachable cell is ever freed

A cell is doomed while a sweep is under way, its block is still to be swept and it has no
mark; a constructor under way protects its cell, since nothing is swept then. The mutator
only ever holds references to cells that are live and not doomed, and these refer to such
cells only. Marking establishes this for the sweep it starts, and sweeping frees doomed
cells only.
-/

namespace Ladybone.GC.Heap

open Support.Marking Support.Runs List Option Function

def LiveAt (heap : Heap) (reference : Reference) : Prop :=
  ∃ cell, heap.cellAt reference.address = some cell ∧ cell.state = .live ∧
    cell.identity = reference.identity

def Doomed (heap : Heap) (address : Address) : Prop :=
  heap.incrementalSweepActive = true ∧ heap.Pending address.block ∧
    heap.marks address = false ∧ address ∉ heap.constructing.map Reference.address

def Kept (heap : Heap) (reference : Reference) : Prop :=
  heap.LiveAt reference ∧ ¬ heap.Doomed reference.address

inductive Reachable (heap : Heap) : Reference → Prop where
  | root {reference : Reference} :
      reference ∈ heap.roots ++ heap.constructing → Reachable heap reference
  | edge {holder reference : Reference} {cell : Cell} :
      Reachable heap holder → heap.cellAt holder.address = some cell →
        reference ∈ cell.edges → Reachable heap reference

/-- A weak reference reads as null or as the cell it was made for, which is still there. -/
def ReadsRight (heap : Heap) (handle : WeakHandle) : Prop :=
  ∀ reference, (heap.weakImpls handle.impl).ptr = some reference →
    reference.identity = handle.identity ∧ heap.LiveAt reference

def Deallocated (before after : Heap) (reference : Reference) : Prop :=
  before.LiveAt reference ∧ ¬ after.LiveAt reference

structure Safe (heap : Heap) : Prop where
  layout : heap.Layout
  scopes : heap.gcDeferrals = heap.scopes.length
  roots : ∀ reference ∈ heap.roots ++ heap.constructing, heap.Kept reference
  edges : ∀ holder cell, heap.Kept holder → heap.cellAt holder.address = some cell →
    ∀ reference ∈ cell.edges, heap.Kept reference
  weakKept : ∀ index reference, (heap.weakImpls index).state = .allocated →
    (heap.weakImpls index).ptr = some reference → heap.Kept reference
  handles : ∀ handle ∈ heap.weaks, (heap.weakImpls handle.impl).state = .allocated ∧
    ∀ reference, (heap.weakImpls handle.impl).ptr = some reference →
      reference.identity = handle.identity
  refCounts : ∀ index, (heap.weakImpls index).refCount =
    heap.weaks.countP fun handle => handle.impl = index

variable {heap after : Heap} {ref cell : Reference} {handle : WeakHandle} {addr : Address}
  {newBlock alloc impl idx : Nat} {stackWords : List Address} {weaks : List WeakHandle}
  {action : Action} {before middle : Heap}

theorem Safe.reachable_kept (safe : heap.Safe) (reachable : heap.Reachable ref) :
    heap.Kept ref := by
  induction reachable with
  | root mem => exact safe.roots _ mem
  | edge _ found mem ih => exact safe.edges _ _ ih found _ mem

theorem kept_of_idle (idle : heap.incrementalSweepActive = false) :
    heap.Kept ref ↔ heap.LiveAt ref := by
  refine ⟨And.left, fun live => ⟨live, ?_⟩⟩
  rintro ⟨active, -⟩
  rw [idle] at active
  cases active

theorem constructing_nil (safe : heap.Safe) (runs : heap.gcDeferrals = 0) :
    heap.constructing = [] := by
  have none : heap.scopes = [] := eq_nil_of_length_eq_zero (safe.scopes.symm.trans runs)
  simp [constructing, none]

/-! ## Sweeping -/

structure Retains (before after : Heap) : Prop where
  same : SameMutator before after
  kept : ∀ reference, after.Kept reference ↔ before.Kept reference
  cells : ∀ reference, before.Kept reference →
    after.cellAt reference.address = before.cellAt reference.address

theorem Safe.carry (safe : heap.Safe) (layout : after.Layout)
    (scopes : after.gcDeferrals = after.scopes.length)
    (roots : ∀ ref ∈ after.roots ++ after.constructing, after.Kept ref)
    (edges : ∀ holder cell, after.Kept holder → after.cellAt holder.address = some cell →
      ∀ ref ∈ cell.edges, after.Kept ref) (kept : ∀ ref, heap.Kept ref → after.Kept ref)
    (weakImpls : after.weakImpls = heap.weakImpls) (weaks : after.weaks = heap.weaks) :
    after.Safe := by
  refine ⟨layout, scopes, roots, edges, fun idx ref state points => ?_, ?_, ?_⟩
  · rw [weakImpls] at state points
    exact kept ref (safe.weakKept idx ref state points)
  · rw [weakImpls, weaks]
    exact safe.handles
  · rw [weakImpls, weaks]
    exact safe.refCounts

theorem SameMutator.safe (same : SameMutator heap after) (safe : heap.Safe) (layout : after.Layout)
    (kept : ∀ ref, after.Kept ref ↔ heap.Kept ref)
    (edges : ∀ holder cell, heap.Kept holder → after.cellAt holder.address = some cell →
      ∀ ref ∈ cell.edges, heap.Kept ref) : after.Safe := by
  have constructing : after.constructing = heap.constructing := by
    unfold Heap.constructing
    rw [same.scopes]
  refine safe.carry layout ?_ ?_ ?_ (fun ref => (kept ref).mpr) same.weakImpls same.weaks
  · rw [same.gcDeferrals, same.scopes]
    exact safe.scopes
  · intro ref mem
    rw [same.roots, constructing] at mem
    exact (kept ref).mpr (safe.roots ref mem)
  · intro holder cell keptHolder there ref mem
    exact (kept ref).mpr (edges holder cell ((kept holder).mp keptHolder) there ref mem)

theorem Retains.refl (heap : Heap) : Retains heap heap :=
  ⟨⟨rfl, rfl, rfl, rfl, rfl⟩, fun _ => Iff.rfl, fun _ _ => rfl⟩

theorem Retains.trans (first : Retains before middle)
    (second : Retains middle after) : Retains before after where
  same := ⟨second.same.roots.trans first.same.roots, second.same.weaks.trans first.same.weaks,
    second.same.weakImpls.trans first.same.weakImpls, second.same.scopes.trans first.same.scopes,
    second.same.gcDeferrals.trans first.same.gcDeferrals⟩
  kept := fun ref => (second.kept ref).trans (first.kept ref)
  cells := fun ref kept =>
    (second.cells ref ((first.kept ref).mpr kept)).trans (first.cells ref kept)

theorem Retains.safe (retains : Retains heap after) (safe : heap.Safe) (layout : after.Layout) :
    after.Safe := by
  refine retains.same.safe safe layout retains.kept fun holder cell kept found => ?_
  rw [retains.cells holder kept] at found
  exact safe.edges holder cell kept found

theorem sweep_block_same : SameMutator heap (heap.sweepBlock idx) := by
  unfold sweepBlock
  split <;> exact ⟨rfl, rfl, rfl, rfl, rfl⟩

theorem sweep_block_live_at {block : HeapBlock} (found : heap.blocks idx = some block)
    (layout : heap.Layout) (live : (heap.sweepBlock idx).LiveAt ref) :
    heap.LiveAt ref ∧ (ref.address.block = idx → heap.marks ref.address = true) := by
  obtain ⟨cell, there, live, identity⟩ := live
  obtain ⟨wasLive, wasMarked⟩ :=
    sweep_block_is_live found layout (is_live_iff.mpr ⟨cell, there, live⟩)
  obtain ⟨before, beforeThere, beforeLive⟩ := is_live_iff.mp wasLive
  have stays := sweep_block_cell_at found layout beforeThere beforeLive wasMarked
  rw [there] at stays
  cases stays
  exact ⟨⟨cell, beforeThere, live, identity⟩, wasMarked⟩

theorem sweep_block_retains (layout : heap.Layout)
    (active : heap.incrementalSweepActive = true) (noConstructor : heap.constructing = [])
    (pending : heap.Pending idx) : Retains heap (heap.sweepBlock idx) := by
  obtain ⟨alloc, waiting⟩ := pending
  obtain ⟨block, found, -⟩ := layout.pending_owner waiting
  have constructing : (heap.sweepBlock idx).constructing = [] := by
    unfold Heap.constructing at noConstructor ⊢
    rwa [sweep_block_same.scopes]
  have activeAfter := (sweep_block_active idx).trans active
  have marksElsewhere : ∀ addr : Address, addr.block ≠ idx →
      (heap.sweepBlock idx).marks addr = heap.marks addr := by
    intro addr elsewhere
    simp only [sweepBlock, found]
    rw [if_neg (fun both => elsewhere both.1)]
  -- what is kept in the swept block is marked
  have markedHere : ∀ ref, heap.Kept ref → ref.address.block = idx →
      heap.marks ref.address = true := by
    intro ref kept here
    by_contra unmarked
    apply kept.2
    rw [Doomed, here, noConstructor]
    exact ⟨active, ⟨alloc, waiting⟩, Bool.eq_false_iff.mpr unmarked, not_mem_nil⟩
  have cells : ∀ ref, heap.Kept ref →
      (heap.sweepBlock idx).cellAt ref.address = heap.cellAt ref.address := by
    intro ref kept
    obtain ⟨cell, there, live, -⟩ := kept.1
    rw [there]
    exact sweep_block_cell_at found layout there live (markedHere ref kept)
  refine ⟨sweep_block_same, ?_, cells⟩
  intro ref
  constructor
  · rintro ⟨live, notDoomed⟩
    obtain ⟨wasLive, wasMarked⟩ := sweep_block_live_at found layout live
    refine ⟨wasLive, ?_⟩
    rintro ⟨-, waits, unmarked, -⟩
    by_cases here : ref.address.block = idx
    · rw [wasMarked here] at unmarked
      cases unmarked
    · apply notDoomed
      rw [Doomed, constructing, marksElsewhere _ here]
      exact ⟨activeAfter, (sweep_block_pending found layout).mpr ⟨waits, here⟩, unmarked,
        not_mem_nil⟩
  · intro kept
    obtain ⟨cell, there, live, identity⟩ := kept.1
    refine ⟨⟨cell, (cells ref kept).trans there, live, identity⟩, ?_⟩
    rintro ⟨-, waits, unmarked, -⟩
    obtain ⟨waited, here⟩ := (sweep_block_pending found layout).mp waits
    apply kept.2
    rw [Doomed, noConstructor, ← marksElsewhere _ here]
    exact ⟨active, waited, unmarked, not_mem_nil⟩

theorem Sweeps.retains (sweeps : Sweeps heap after) (layout : heap.Layout)
    (noConstructor : heap.constructing = []) : Retains heap after := by
  induction sweeps with
  | refl heap => exact Retains.refl heap
  | @block cur _ idx _ active pending complete _ ih =>
    have first := sweep_block_retains layout active noConstructor pending
    obtain ⟨alloc, waiting⟩ := pending
    obtain ⟨block, found, -⟩ := layout.pending_owner waiting
    have stillNone : (cur.sweepBlock idx).constructing = [] := by
      unfold Heap.constructing at noConstructor ⊢
      rwa [first.same.scopes]
    have second := ih ((sweep_block_layout found layout active).requeue complete) stillNone
    exact first.trans ⟨⟨second.same.roots, second.same.weaks, second.same.weakImpls,
      second.same.scopes, second.same.gcDeferrals⟩, second.kept, second.cells⟩
  | finish _ drained =>
    refine ⟨⟨rfl, rfl, rfl, rfl, rfl⟩, fun ref => ?_, fun _ _ => rfl⟩
    constructor
    all_goals
      rintro ⟨live, -⟩
      exact ⟨live, fun doomed => drained _ doomed.2.1⟩

theorem Sweeps.safe (sweeps : Sweeps heap after) (safe : heap.Safe)
    (runs : heap.gcDeferrals = 0) : Retains heap after ∧ after.Safe := by
  have retains := sweeps.retains safe.layout (constructing_nil safe runs)
  exact ⟨retains, retains.safe safe (sweeps.layout safe.layout)⟩

theorem Sweeps.lists (sweeps : Sweeps heap after) (layout : heap.Layout) :
    (∀ ref, after.LiveAt ref → heap.LiveAt ref) ∧ after.nextIdentity = heap.nextIdentity ∧
      (heap.Sorted → after.Sorted) := by
  induction sweeps with
  | refl => exact ⟨fun _ => id, rfl, id⟩
  | @block cur _ idx _ active pending complete _ ih =>
    obtain ⟨alloc, waiting⟩ := pending
    obtain ⟨block, found, -⟩ := layout.pending_owner waiting
    obtain ⟨lives, ids, sorted⟩ := ih ((sweep_block_layout found layout active).requeue complete)
    have same : (cur.sweepBlock idx).nextIdentity = cur.nextIdentity := by
      simp [sweepBlock, found]
    exact ⟨fun ref live => (sweep_block_live_at found layout (lives ref live)).1, ids.trans same,
      fun before => sorted (sweep_block_sorted found layout before)⟩
  | finish => exact ⟨fun _ => id, rfl, id⟩

/-! ## Collecting -/

theorem mem_addresses (layout : heap.Layout) (live : heap.isLive addr = true) :
    addr ∈ heap.addresses := by
  obtain ⟨cell, there, -⟩ := is_live_iff.mp live
  obtain ⟨block, found, inBlock⟩ := block_of_cell_at there
  obtain ⟨listed, registered⟩ := layout.listed addr.block block found
  refine mem_flatMap.mpr ⟨block.allocator, registered, mem_flatMap.mpr ⟨addr.block, listed, ?_⟩⟩
  simp only [blockAddresses, found]
  exact mem_map.mpr ⟨addr.index, mem_range.mpr (List.getElem?_eq_some_iff.mp inBlock).1, rfl⟩

theorem is_live_of_live_at (live : heap.LiveAt ref) : heap.isLive ref.address = true := by
  obtain ⟨cell, there, state, -⟩ := live
  exact is_live_iff.mpr ⟨cell, there, state⟩

section
variable (safe : heap.Safe)

include safe

section
variable (idle : heap.incrementalSweepActive = false)

include idle

theorem mark_live_cells_closed :
    let marked := (heap.markLiveCells (heap.gatherRoots stackWords)).marks
    (∀ ref ∈ heap.roots ++ heap.constructing, marked ref.address = true) ∧
      ∀ holder cell, heap.LiveAt holder → heap.cellAt holder.address = some cell →
        marked holder.address = true → ∀ ref ∈ cell.edges, marked ref.address = true := by
  have liveEdges : ∀ addr cell, heap.isLive addr = true →
      heap.cellAt addr = some cell → ∀ ref ∈ cell.edges, heap.LiveAt ref := by
    intro addr cell live there ref mem
    have state : cell.state = .live := by
      obtain ⟨other, otherThere, state⟩ := is_live_iff.mp live
      rw [there] at otherThere
      cases otherThere
      exact state
    have kept : heap.Kept ⟨addr, cell.identity⟩ :=
      (kept_of_idle idle).mpr ⟨cell, there, state, rfl⟩
    exact (safe.edges _ cell kept there ref mem).1
  have closed : ∀ node ∈ heap.addresses.filter heap.isLive, ∀ next ∈ heap.edgesOf node,
      next ∈ heap.addresses.filter heap.isLive := by
    intro node mem next successor
    have live := (mem_filter.mp mem).2
    unfold edgesOf at successor
    split at successor
    · rename_i cell there
      obtain ⟨ref, edge, rfl⟩ := mem_map.mp successor
      have nextLive := is_live_of_live_at (liveEdges node cell live there ref edge)
      exact mem_filter.mpr ⟨mem_addresses safe.layout nextLive, nextLive⟩
    · exact absurd successor not_mem_nil
  have roots : ∀ root ∈ heap.gatherRoots stackWords, root ∈ heap.addresses.filter heap.isLive := by
    intro root mem
    have live : heap.isLive root = true := by
      rcases mem_append.mp mem with held | word
      · obtain ⟨ref, isRoot, rfl⟩ := mem_map.mp held
        exact is_live_of_live_at (safe.roots ref isRoot).1
      · exact (mem_filter.mp word).2
    exact mem_filter.mpr ⟨mem_addresses safe.layout live, live⟩
  obtain ⟨marksRoots, closes⟩ := mark_closed closed
    (fun node mem => safe.layout.marksIdle idle node (mem_filter.mp mem).2)
    roots (length_filter_le _ heap.addresses)
  constructor
  · intro ref mem
    exact marksRoots _ (mem_append_left _ (mem_map_of_mem mem))
  · intro holder cell live there marked ref mem
    have holderLive := is_live_of_live_at live
    refine closes holder.address
      (mem_filter.mpr ⟨mem_addresses safe.layout holderLive, holderLive⟩) marked _ ?_
    simp only [edgesOf, there]
    exact mem_map_of_mem mem

/-- The stop-the-world part of a collection. -/
def markAndStart (heap : Heap) (stackWords : List Address) : Heap :=
  ((heap.markLiveCells (heap.gatherRoots stackWords)).sweepWeakBlocks).startIncrementalSweep

theorem mark_and_start_kept (noConstructor : heap.constructing = []) (stackWords : List Address)
    (ref : Reference) :
    (heap.markAndStart stackWords).Kept ref ↔ heap.LiveAt ref ∧
        (heap.markLiveCells (heap.gatherRoots stackWords)).marks ref.address = true := by
  have constructing : (heap.markAndStart stackWords).constructing = [] := noConstructor
  constructor
  · rintro ⟨live, notDoomed⟩
    refine ⟨live, ?_⟩
    by_contra unmarked
    apply notDoomed
    obtain ⟨cell, there, -⟩ := live
    obtain ⟨block, found, -⟩ := block_of_cell_at there
    rw [Doomed, constructing]
    exact ⟨rfl, start_pending safe.layout idle found, Bool.eq_false_iff.mpr unmarked, not_mem_nil⟩
  · rintro ⟨live, marked⟩
    refine ⟨live, ?_⟩
    rintro ⟨-, -, unmarked, -⟩
    cases (marked.symm.trans unmarked)

theorem mark_and_start_safe (runs : heap.gcDeferrals = 0) :
    (heap.markAndStart stackWords).Safe := by
  have keptIff := mark_and_start_kept safe idle (constructing_nil safe runs) stackWords
  obtain ⟨marksRoots, closes⟩ := mark_live_cells_closed safe idle
  refine ⟨start_layout safe.layout idle, safe.scopes, ?_, ?_, ?_, ?_, ?_⟩
  · intro ref mem
    exact (keptIff ref).mpr ⟨(safe.roots ref mem).1, marksRoots ref mem⟩
  · intro holder cell kept there ref mem
    obtain ⟨live, marked⟩ := (keptIff holder).mp kept
    have target := safe.edges holder cell ((kept_of_idle idle).mpr live) there ref mem
    exact (keptIff ref).mpr ⟨target.1, closes holder cell live there marked ref mem⟩
  · intro idx ref allocated points
    simp only [markAndStart, startIncrementalSweep, sweepWeakBlocks,
      sweepWeakImpl] at allocated points
    split at points
    · rename_i free
      simp only [free] at allocated
      cases allocated
    · rename_i state
      split at points
      · cases points
      · obtain ⟨before, marked⟩ := filter_eq_some_iff.mp points
        exact (keptIff ref).mpr ⟨(safe.weakKept idx ref state before).1, marked⟩
  · intro handle mem
    obtain ⟨allocated, identity⟩ := safe.handles handle mem
    have counted : (heap.weakImpls handle.impl).refCount ≠ 0 := by
      rw [safe.refCounts]
      have positive : 0 < heap.weaks.countP fun other => other.impl = handle.impl :=
        countP_pos_iff.mpr ⟨handle, mem, by simp⟩
      omega
    have swept : (heap.markAndStart stackWords).weakImpls handle.impl =
        { heap.weakImpls handle.impl with
          ptr := (heap.weakImpls handle.impl).ptr.filter fun cell =>
            (heap.markLiveCells (heap.gatherRoots stackWords)).marks cell.address } := by
      simp only [markAndStart, startIncrementalSweep, sweepWeakBlocks, sweepWeakImpl]
      simp [markLiveCells, allocated, if_neg counted]
    rw [swept]
    refine ⟨allocated, ?_⟩
    intro ref points
    exact identity ref (filter_eq_some_iff.mp points).1
  · intro idx
    have counts : ((heap.markAndStart stackWords).weakImpls idx).refCount =
        (heap.weakImpls idx).refCount := by
      simp only [markAndStart, startIncrementalSweep, sweepWeakBlocks, sweepWeakImpl]
      split
      · rfl
      · split
        · rename_i unused
          exact unused.symm
        · rfl
    rw [counts]
    exact safe.refCounts idx

end

def Advances (before after : Heap) : Prop :=
  after.Safe ∧ ∀ reference, before.Kept reference → after.LiveAt reference

/-- A step without a mark phase that takes no cell. -/
structure Quiet (before after : Heap) : Prop where
  safe : after.Safe
  live : ∀ ref, after.LiveAt ref → before.LiveAt ref
  kept : ∀ ref, after.Kept ref ↔ before.Kept ref
  ids : after.nextIdentity = before.nextIdentity
  sorted : before.Sorted → after.Sorted

/-- What a step without a mark phase does to cells: kept ones stay, doomed ones are not
saved, and new ones are kept. -/
structure Passes (before after : Heap) : Prop where
  advances : Advances before after
  old : ∀ ref, before.LiveAt ref → after.LiveAt ref → (after.Kept ref ↔ before.Kept ref)
  new : ∀ ref, after.LiveAt ref → before.LiveAt ref ∨ before.nextIdentity ≤ ref.identity ∧
    ref.identity < after.nextIdentity ∧ after.Kept ref
  grows : before.nextIdentity ≤ after.nextIdentity
  sorted : before.Sorted → after.Sorted

/-- A collection: the pending sweep ends, then comes the mark phase. -/
structure Pause (before settled after : Heap) : Prop where
  quiet : Quiet before settled
  idle : settled.incrementalSweepActive = false
  running : settled.gcDeferrals = 0
  marked : ∃ words flag,
    after = { settled.markAndStart words with shouldGcWhenDeferralEnds := flag }

omit safe in
theorem Quiet.trans (first : Quiet before middle)
    (second : Quiet middle after) : Quiet before after :=
  ⟨second.safe, fun ref live => first.live ref (second.live ref live),
    fun ref => (second.kept ref).trans (first.kept ref), second.ids.trans first.ids,
    fun sorted => second.sorted (first.sorted sorted)⟩

omit safe in
theorem Quiet.passes (quiet : Quiet heap after) : Passes heap after :=
  ⟨⟨quiet.safe, fun ref kept => ((quiet.kept ref).mpr kept).1⟩, fun ref _ _ => quiet.kept ref,
    fun ref live => .inl (quiet.live ref live), Nat.le_of_eq quiet.ids.symm, quiet.sorted⟩

theorem Sweeps.quiet (sweeps : Sweeps heap after) (runs : heap.gcDeferrals = 0) :
    Quiet heap after := by
  obtain ⟨lives, ids, sorted⟩ := sweeps.lists safe.layout
  obtain ⟨retains, swept⟩ := sweeps.safe safe runs
  exact ⟨swept, lives, retains.kept, ids, sorted⟩

theorem Safe.with_flag (flag : Bool) : Quiet heap { heap with shouldGcWhenDeferralEnds := flag } :=
  ⟨{ safe with layout := safe.layout.mutate }, fun _ => id, fun _ => .rfl, rfl, id⟩

theorem collect_garbage_pause (runs : heap.gcDeferrals = 0) (words : List Address) (flag : Bool) :
    Pause heap heap.finishPendingIncrementalSweep
      { heap.collectGarbage words with shouldGcWhenDeferralEnds := flag } := by
  obtain ⟨sweeps, ends⟩ := finish_pending_sweeps safe.layout
  have stillRunning := (sweeps.safe safe runs).1.same.gcDeferrals.trans runs
  refine ⟨sweeps.quiet safe runs, ends runs, stillRunning, words, flag, ?_⟩
  simp only [collectGarbage, stillRunning, markAndStart]
  rw [if_neg (Nat.lt_irrefl 0)]

theorem collect_garbage_deferred (deferred : heap.gcDeferrals ≠ 0) (words : List Address) :
    Quiet heap (heap.collectGarbage words) := by
  have skipped : heap.finishPendingIncrementalSweep = heap := by
    simp [finishPendingIncrementalSweep, isGcDeferred, Nat.pos_of_ne_zero deferred]
  simp only [collectGarbage, skipped]
  rw [if_pos (Nat.pos_of_ne_zero deferred)]
  exact safe.with_flag true

/-- What `allocate` has done when it calls `undefer_gc`. -/
def leaveConstructor (heap : Heap) (cell : Reference) (outer : List Scope) : Heap :=
  { heap.tagDuringSweep cell.address with
    scopes := outer
    roots := cell :: (heap.tagDuringSweep cell.address).roots
    gcDeferrals := (heap.tagDuringSweep cell.address).gcDeferrals - 1 }

def collecting (heap : Heap) : Action → Heap
  | .undefer _ => { heap with scopes := heap.scopes.tail, gcDeferrals := heap.gcDeferrals - 1 }
  | .finishAllocate _ =>
    match heap.scopes with
    | .construction cell :: outer => heap.leaveConstructor cell outer
    | _ => heap
  | _ => heap

def collects (heap : Heap) : Action → Bool
  | .collect _ => heap.gcDeferrals == 0
  | .undefer _ | .finishAllocate _ => heap.gcDeferrals - 1 == 0 && heap.shouldGcWhenDeferralEnds
  | _ => false

def settled (heap : Heap) (action : Action) : Heap :=
  (heap.collecting action).finishPendingIncrementalSweep

/-- A step is a collection or has no mark phase. -/
def Splits (heap : Heap) (action : Action) (after : Heap) : Prop :=
  (heap.collects action = true → Pause heap (heap.settled action) after) ∧
    (heap.collects action = false → Passes heap after)

omit safe in
theorem Passes.splits (passes : Passes heap after)
    (skips : heap.collects action = false) : heap.Splits action after :=
  ⟨fun collects => by simp [skips] at collects, fun _ => passes⟩

omit safe in
theorem undefer_gc_splits (heap : Heap)
    (quiet : Quiet before { heap with gcDeferrals := heap.gcDeferrals - 1 })
    (leaves : before.collecting action = { heap with gcDeferrals := heap.gcDeferrals - 1 })
    (asks : before.collects action = (heap.gcDeferrals - 1 == 0 && heap.shouldGcWhenDeferralEnds)) :
    before.Splits action (heap.undeferGc stackWords) := by
  simp only [Splits, settled, leaves, asks, undeferGc, Bool.and_eq_true, beq_iff_eq]
  refine ⟨fun ⟨ends, asked⟩ => ?_, fun skips => Quiet.passes ?_⟩
  · have pause := collect_garbage_pause quiet.safe ends stackWords false
    rw [if_pos ends, if_pos asked]
    exact { pause with quiet := quiet.trans pause.quiet }
  · split_ifs with ends asked
    · simp [ends, asked] at skips
    · exact quiet.trans (quiet.safe.with_flag false)
    · exact quiet

/-! ## Allocating -/

theorem Safe.register (alloc : Nat) :
    (heap.registerCellAllocator alloc).Safe ∧ Retains heap (heap.registerCellAllocator alloc) := by
  have retains : Retains heap (heap.registerCellAllocator alloc) := by
    unfold registerCellAllocator
    split
    · exact Retains.refl heap
    · exact ⟨⟨rfl, rfl, rfl, rfl, rfl⟩, fun _ => Iff.rfl, fun _ _ => rfl⟩
  exact ⟨retains.safe safe (register_cell_allocator_layout safe.layout), retains⟩

omit safe in
theorem with_block_retains (alloc : Nat) (unused : heap.blocks newBlock = none) :
    Retains heap (heap.withBlock alloc newBlock) := by
  have cells := with_block_cell_at alloc unused
  have pendingIff : ∀ idx, (heap.withBlock alloc newBlock).Pending idx ↔ heap.Pending idx := by
    intro idx
    simp [Pending, with_block_pending]
  have liveIff : ∀ ref, (heap.withBlock alloc newBlock).LiveAt ref ↔ heap.LiveAt ref := by
    intro ref
    simp [LiveAt, cells]
  refine ⟨⟨rfl, rfl, rfl, rfl, rfl⟩, ?_, fun ref _ => cells ref.address⟩
  intro ref
  unfold Kept
  rw [liveIff]
  apply and_congr_right
  intro _
  unfold Doomed
  rw [pendingIff]
  rfl

theorem allocate_cell_prepared (allocated : heap.allocateCell alloc newBlock = some (cell, after)) :
    ∃ ready : Heap, Retains heap ready ∧ ready.Safe ∧ Taken ready after cell ∧
      (∀ ref, ready.LiveAt ref → heap.LiveAt ref) ∧ cell.identity = heap.nextIdentity ∧
      after.nextIdentity = heap.nextIdentity + 1 ∧ (heap.Sorted → after.Sorted) := by
  obtain ⟨registered, registers⟩ := safe.register alloc
  obtain ⟨ready, added, taken⟩ := bind_eq_some_iff.mp allocated
  -- allocation-directed sweeping happens outside deferrals only
  have sweptSafe : ∃ swept : Heap, Sweeps (heap.registerCellAllocator alloc) swept ∧
      Retains heap swept ∧ swept.Safe ∧ alloc ∈ swept.allCellAllocators ∧
      swept.addBlock alloc newBlock = some ready := by
    split at added
    · rename_i entered
      have conditions : (heap.registerCellAllocator alloc).incrementalSweepActive = true ∧
          (heap.registerCellAllocator alloc).gcDeferrals = 0 := by
        simp only [Bool.and_eq_true, Bool.not_eq_eq_eq_not] at entered
        refine ⟨entered.1.2, ?_⟩
        simpa [isGcDeferred] using entered.2
      have sweeps := sweep_own_blocks_sweeps registered.layout conditions.1 alloc
        ((heap.registerCellAllocator alloc).allocators alloc).blocksPendingSweep.length
      obtain ⟨retains, sweptSafe⟩ := sweeps.safe registered conditions.2
      refine ⟨_, sweeps, registers.trans retains, sweptSafe, ?_, added⟩
      rw [sweeps.registered]
      exact mem_register_cell_allocator
    · exact ⟨_, .refl _, registers, registered, mem_register_cell_allocator, added⟩
  obtain ⟨swept, sweeps, retains, sweptSafe, isRegistered, added⟩ := sweptSafe
  have same : (heap.registerCellAllocator alloc).LiveAt = heap.LiveAt ∧
      (heap.registerCellAllocator alloc).Sorted = heap.Sorted ∧
      (heap.registerCellAllocator alloc).nextIdentity = heap.nextIdentity := by
    unfold registerCellAllocator
    split <;> exact ⟨rfl, rfl, rfl⟩
  obtain ⟨live, ids, sorted⟩ := sweeps.lists registered.layout
  simp only [same] at live ids sorted
  rcases add_block_cases added with rfl | ⟨empty, unused, rfl⟩
  · obtain ⟨taken, identity, next, listed⟩ := take_cell_taken sweptSafe.layout taken
    rw [ids] at identity next
    exact ⟨ready, retains, sweptSafe, taken, live, identity, next,
      fun before => listed fun idx block found =>
        ⟨(sorted before idx block found).1, fun _ => (sorted before idx block found).2⟩⟩
  · have grows := with_block_retains alloc unused
    have layout := with_block_layout sweptSafe.layout isRegistered unused
    obtain ⟨taken, identity, next, listed⟩ := take_cell_taken layout taken
    rw [← ids]
    refine ⟨_, retains.trans grows, grows.safe sweptSafe layout, taken, fun ref now => live ref ?_,
      identity, next, fun before => listed fun idx block found => ?_⟩
    · simpa [LiveAt, with_block_cell_at alloc unused] using now
    · by_cases here : idx = newBlock
      · subst here
        simp only [withBlock, update_self] at found ⊢
        cases found
        exact ⟨by simp [HeapBlock.Listed, HeapBlock.create],
          fun elsewhere => absurd getLast?_concat elsewhere⟩
      · simp only [withBlock, update_of_ne here] at found ⊢
        refine ⟨(sorted before idx block found).1, fun _ => ?_⟩
        rw [← (sorted before idx block found).2]
        by_cases same : block.allocator = alloc
        · simp [same, here]
        · rw [update_of_ne same]

section

omit safe

variable {cell : Reference} (taken : Taken heap after cell)

include taken

theorem Taken.ne_of_live (live : heap.LiveAt ref) : ref.address ≠ cell.address := by
  intro equal
  have wasLive := is_live_of_live_at live
  rw [equal, taken.free] at wasLive
  cases wasLive

theorem Taken.constructing_enter :
    (after.enterConstructor cell).constructing = cell :: heap.constructing := by
  simp [Heap.constructing, enterConstructor, taken.same.scopes]

theorem Taken.live_at_enter (other : ref.address ≠ cell.address) :
    (after.enterConstructor cell).LiveAt ref ↔ heap.LiveAt ref := by
  unfold LiveAt
  rw [← (taken.cells ref.address).trans (if_neg other)]
  rfl

theorem Taken.kept_enter (other : ref.address ≠ cell.address) :
    (after.enterConstructor cell).Kept ref ↔ heap.Kept ref := by
  unfold Kept
  rw [taken.live_at_enter other]
  apply and_congr_right
  intro _
  apply not_congr
  unfold Doomed
  rw [taken.constructing_enter, ← taken.active, ← taken.pending, ← taken.marks _ other,
    map_cons, mem_cons, not_or]
  exact ⟨fun ⟨active, waits, unmarked, _, rest⟩ => ⟨active, waits, unmarked, rest⟩,
    fun ⟨active, waits, unmarked, rest⟩ => ⟨active, waits, unmarked, other, rest⟩⟩

theorem Taken.kept_new : (after.enterConstructor cell).Kept cell := by
  refine ⟨⟨⟨.live, cell.identity, []⟩, (taken.cells cell.address).trans (if_pos rfl), rfl, rfl⟩, ?_⟩
  rintro ⟨-, -, -, outside⟩
  apply outside
  exact mem_cons_self

end

theorem begin_allocate_passes (fresh : ∀ ref, heap.LiveAt ref → ref.identity < heap.nextIdentity)
    (begun : heap.beginAllocate alloc newBlock = some after) : Passes heap after := by
  obtain ⟨⟨cell, allocated⟩, took, rfl⟩ := map_eq_some_iff.mp begun
  obtain ⟨ready, retains, readySafe, taken, live, identity, next, sorted⟩ :=
    allocate_cell_prepared safe took
  have isNew (ref : Reference) (now : (allocated.enterConstructor cell).LiveAt ref)
      (here : ref.address = cell.address) : ref.identity = cell.identity := by
    obtain ⟨found, there, -, same⟩ := now
    cases there.symm.trans ((taken.cells ref.address).trans (if_pos here))
    exact same.symm
  have keptOld : ∀ ref, ready.Kept ref → (allocated.enterConstructor cell).Kept ref :=
    fun ref kept => (taken.kept_enter (taken.ne_of_live kept.1)).mpr kept
  refine ⟨⟨readySafe.carry taken.layout.mutate ?_ ?_ ?_ keptOld taken.same.weakImpls
    taken.same.weaks, ?_⟩, ?_, ?_, ?_, sorted⟩
  · simp only [enterConstructor, deferGc, length_cons, taken.same.gcDeferrals, taken.same.scopes]
    rw [readySafe.scopes]
  · intro ref mem
    rw [taken.constructing_enter] at mem
    simp only [enterConstructor, taken.same.roots] at mem
    rcases mem_append.mp mem with root | under
    · rcases mem_cons.mp root with rfl | old
      · exact taken.kept_new
      · exact keptOld ref (readySafe.roots ref (mem_append_left _ old))
    · rcases mem_cons.mp under with rfl | old
      · exact taken.kept_new
      · exact keptOld ref (readySafe.roots ref (mem_append_right _ old))
  · intro holder found kept there ref mem
    by_cases new : holder.address = cell.address
    · have fresh : allocated.cellAt holder.address = some ⟨.live, cell.identity, []⟩ :=
        (taken.cells holder.address).trans (if_pos new)
      have equal : found = ⟨.live, cell.identity, []⟩ := some.inj (there.symm.trans fresh)
      rw [equal] at mem
      exact absurd mem not_mem_nil
    · have before : ready.cellAt holder.address = some found :=
        ((taken.cells holder.address).trans (if_neg new)).symm.trans there
      exact keptOld ref
        (readySafe.edges holder found ((taken.kept_enter new).mp kept) before ref mem)
  · intro ref kept
    exact (keptOld ref ((retains.kept ref).mpr kept)).1
  · intro ref old now
    have other : ref.address ≠ cell.address := by
      intro here
      have below := fresh ref old
      rw [isNew ref now here, identity] at below
      exact Nat.lt_irrefl _ below
    exact (taken.kept_enter other).trans (retains.kept ref)
  · intro ref now
    by_cases here : ref.address = cell.address
    · have same := isNew ref now here
      obtain rfl : ref = cell := by
        cases ref
        cases cell
        cases here
        cases same
        rfl
      exact .inr ⟨Nat.le_of_eq identity.symm, identity ▸ next ▸ Nat.lt_succ_self _, taken.kept_new⟩
    · exact .inl (live ref ((taken.live_at_enter here).mp now))
  · exact next ▸ Nat.le_succ _

end

theorem tag_during_sweep_layout (layout : heap.Layout) {cell : Address} :
    (heap.tagDuringSweep cell).Layout := by
  unfold tagDuringSweep
  split
  · rename_i active
    refine { layout with marksIdle := ?_, marksActive := ?_ }
    · intro idle
      simp only [active] at idle
      cases idle
    · intro _ addr live marked
      simp only at marked ⊢
      by_cases same : addr = cell
      · right
        rw [same]
        exact mem_append_right _ mem_cons_self
      · rw [update_of_ne same] at marked
        exact (layout.marksActive active addr live marked).imp id (mem_append_left _)
  · exact layout

theorem leave_constructor_quiet {outer : List Scope} (safe : heap.Safe)
    (inside : heap.scopes = .construction cell :: outer) :
    Quiet heap (heap.leaveConstructor cell outer) := by
  have fields : (heap.leaveConstructor cell outer).weakImpls = heap.weakImpls ∧
      (heap.leaveConstructor cell outer).weaks = heap.weaks ∧
      (heap.leaveConstructor cell outer).roots = cell :: heap.roots ∧
      (heap.leaveConstructor cell outer).cellAt = heap.cellAt ∧
      (heap.leaveConstructor cell outer).gcDeferrals = heap.gcDeferrals - 1 ∧
      (heap.leaveConstructor cell outer).nextIdentity = heap.nextIdentity ∧
      (heap.leaveConstructor cell outer).Sorted = heap.Sorted := by
    unfold leaveConstructor tagDuringSweep
    split <;> exact ⟨rfl, rfl, rfl, rfl, rfl, rfl, rfl⟩
  obtain ⟨weakImpls, weaks, roots, cells, deferrals, ids, sorted⟩ := fields
  have constructing : heap.constructing =
      cell :: (heap.leaveConstructor cell outer).constructing := by
    simp [Heap.constructing, leaveConstructor, inside]
  have keptIff : ∀ ref, (heap.leaveConstructor cell outer).Kept ref ↔ heap.Kept ref := by
    intro ref
    unfold Kept LiveAt
    rw [cells]
    apply and_congr_right
    intro _
    unfold Doomed
    rw [constructing, map_cons, mem_cons, not_or]
    unfold leaveConstructor tagDuringSweep
    by_cases active : heap.incrementalSweepActive = true
    · simp only [active, if_true]
      by_cases same : ref.address = cell.address
      · simp [same]
      · simp only [update_of_ne same, same, not_false_eq_true, true_and]
        exact Iff.rfl
    · simp [active]
  refine ⟨safe.carry (tag_during_sweep_layout safe.layout).mutate ?_ ?_ ?_
    (fun ref => (keptIff ref).mpr) weakImpls weaks, ?_, keptIff, ids, fun before => sorted ▸ before⟩
  · rw [deferrals, safe.scopes, inside, length_cons]
    rfl
  · intro ref mem
    rw [roots] at mem
    rw [keptIff]
    apply safe.roots
    rw [constructing]
    rwa [perm_middle.mem_iff]
  · intro holder found kept there ref mem
    rw [cells] at there
    rw [keptIff] at kept ⊢
    exact safe.edges holder found kept there ref mem
  · intro ref
    simp only [LiveAt, cells]
    exact id

section
variable (safe : heap.Safe)

include safe

theorem finish_allocate_splits (finished : heap.finishAllocate stackWords = some after) :
    heap.Splits (.finishAllocate stackWords) after := by
  unfold finishAllocate at finished
  split at finished
  · rename_i cell outer inside
    cases finished
    refine undefer_gc_splits _ (leave_constructor_quiet safe inside) ?_ ?_
    · simp only [collecting, inside]
      rfl
    · unfold tagDuringSweep
      split <;> rfl
  · cases finished

/-! ## The mutator -/

theorem Safe.rescope {scopes : List Scope} {deferrals : Nat} (counted : deferrals = scopes.length)
    (constructing : Heap.constructing { heap with scopes := scopes } = heap.constructing) :
    Quiet heap { heap with scopes := scopes, gcDeferrals := deferrals } := by
  have same : Heap.constructing { heap with scopes := scopes, gcDeferrals := deferrals } =
      heap.constructing := constructing
  have keptIff : ∀ ref,
      Kept { heap with scopes := scopes, gcDeferrals := deferrals } ref ↔
        heap.Kept ref := by
    intro ref
    unfold Kept Doomed
    rw [same]
    rfl
  refine ⟨safe.carry safe.layout.mutate counted ?_ ?_ (fun ref => (keptIff ref).mpr) rfl rfl,
    fun _ => id, keptIff, rfl, id⟩
  · intro ref mem
    rw [same] at mem
    exact (keptIff ref).mpr (safe.roots ref mem)
  · intro holder cell kept there ref mem
    exact (keptIff ref).mpr (safe.edges holder cell ((keptIff holder).mp kept) there ref mem)

theorem undefer_splits (released : heap.undefer stackWords = some after) :
    heap.Splits (.undefer stackWords) after := by
  unfold undefer at released
  split at released
  · rename_i outer inside
    cases released
    have counted : heap.gcDeferrals - 1 = outer.length := by
      rw [safe.scopes, inside]
      rfl
    have constructing : Heap.constructing { heap with scopes := outer } = heap.constructing := by
      simp [Heap.constructing, inside]
    refine undefer_gc_splits { heap with scopes := outer } (safe.rescope counted constructing)
      ?_ rfl
    simp only [collecting, inside, tail_cons]
  · cases released

theorem Safe.reroot {roots : List Reference} (kept : ∀ ref ∈ roots, heap.Kept ref) :
    Quiet heap { heap with roots := roots } := by
  refine ⟨{ safe with layout := safe.layout.mutate, roots := ?_ }, fun _ => id, fun _ => .rfl, rfl,
    id⟩
  exact forall_mem_append.mpr ⟨kept, fun ref under => safe.roots ref (mem_append_right _ under)⟩

theorem Safe.roots_kept (mem : ref ∈ heap.roots) : heap.Kept ref :=
  safe.roots ref (mem_append_left _ mem)

section
variable {change : Cell → Cell}
  (keeps : ∀ cell, (change cell).state = cell.state ∧ (change cell).identity = cell.identity)

include keeps

omit safe in
theorem update_cell_live_at (ref : Reference) :
    (heap.updateCell addr change).LiveAt ref ↔ heap.LiveAt ref := by
  unfold LiveAt
  rw [update_cell_cell_at]
  split
  · cases heap.cellAt ref.address with
    | none => simp
    | some => simp [keeps]
  · rfl

omit safe in
theorem update_cell_kept (ref : Reference) :
    (heap.updateCell addr change).Kept ref ↔ heap.Kept ref := by
  unfold Kept
  rw [update_cell_live_at keeps]
  unfold updateCell
  split <;> rfl

theorem update_cell_quiet (edges : ∀ cell, ∀ ref ∈ (change cell).edges,
      ref ∈ cell.edges ∨ heap.Kept ref) :
    Quiet heap (heap.updateCell addr change) := by
  have same : SameMutator heap (heap.updateCell addr change) := by
    unfold updateCell
    split <;> exact ⟨rfl, rfl, rfl, rfl, rfl⟩
  refine ⟨same.safe safe (update_cell_layout (fun cell => (keeps cell).1) safe.layout)
    (update_cell_kept keeps) ?_, fun ref => (update_cell_live_at keeps ref).mp,
    update_cell_kept keeps, ?_, ?_⟩
  · intro holder cell kept there ref mem
    rw [update_cell_cell_at] at there
    split at there
    · obtain ⟨before, beforeThere, rfl⟩ := map_eq_some_iff.mp there
      rcases edges before ref mem with old | new
      · exact safe.edges holder before kept beforeThere ref old
      · exact new
    · exact safe.edges holder cell kept there ref mem
  · unfold updateCell
    split <;> rfl
  · intro sorted idx block found
    unfold updateCell at found ⊢
    split at found
    · exact sorted idx block found
    · rename_i before there
      by_cases here : idx = addr.block
      · subst here
        simp only [update_self] at found
        cases found
        obtain ⟨⟨inside, complete⟩, listed⟩ := sorted _ before there
        refine ⟨⟨by simpa using inside, fun pos cell there dead => ?_⟩, by
          simpa [HeapBlock.isFull] using listed⟩
        simp only [getElem?_modify] at there
        obtain ⟨old, wasThere, rfl⟩ := map_eq_some_iff.mp there
        refine complete pos old wasThere ?_
        split at dead
        · exact (keeps old).1 ▸ dead
        · exact dead
      · simp only [update_of_ne here] at found
        exact sorted idx block found

end

/-! ### Weak references -/

theorem create_weak_quiet {root : Nat} (created : heap.createWeak root impl = some after) :
    Quiet heap after := by
  unfold createWeak at created
  split at created
  · cases created
  · rename_i cell held
    split at created
    · rename_i free
      cases created
      have mem : cell ∈ heap.roots := mem_of_getElem? held
      have unused : ∀ handle ∈ heap.weaks, handle.impl ≠ impl := by
        intro handle known equal
        have allocated := (safe.handles handle known).1
        rw [equal, free] at allocated
        cases allocated
      refine ⟨⟨safe.layout.mutate, safe.scopes, safe.roots, safe.edges,
        ?_, ?_, ?_⟩, fun _ => id, fun _ => .rfl, rfl, id⟩
      · intro idx ref state points
        simp only at state points
        by_cases here : idx = impl
        · rw [here, update_self] at points
          cases points
          exact safe.roots_kept mem
        · rw [update_of_ne here] at state points
          exact safe.weakKept idx ref state points
      · intro handle known
        simp only
        rcases mem_cons.mp known with rfl | old
        · rw [update_self]
          refine ⟨rfl, ?_⟩
          intro ref points
          cases points
          rfl
        · rw [update_of_ne (unused handle old)]
          exact safe.handles handle old
      · intro idx
        simp only [countP_cons]
        by_cases here : idx = impl
        · subst here
          have none : heap.weaks.countP (fun handle => handle.impl = idx) = 0 :=
            countP_eq_zero.mpr fun handle known => by simp [unused handle known]
          rw [none]
          simp
        · rw [update_of_ne here, safe.refCounts]
          simp [Ne.symm here]
    · cases created

theorem change_ref_count_quiet {change : Nat → Nat} (known : ∀ handle ∈ weaks, handle ∈ heap.weaks)
    (counted : ∀ idx, weaks.countP (fun handle => handle.impl = idx) =
      if idx = impl then change (heap.weaks.countP fun handle => handle.impl = idx)
      else heap.weaks.countP fun handle => handle.impl = idx) :
    Quiet heap { heap.changeRefCount impl change with weaks := weaks } := by
  have others : ∀ idx, (heap.changeRefCount impl change).weakImpls idx =
      { heap.weakImpls idx with
        refCount := if idx = impl then change (heap.weakImpls idx).refCount
          else (heap.weakImpls idx).refCount } := by
    intro idx
    simp only [changeRefCount]
    by_cases here : idx = impl
    · subst here
      rw [update_self, if_pos rfl]
    · rw [update_of_ne here, if_neg here]
  refine ⟨⟨safe.layout.mutate, safe.scopes, safe.roots, safe.edges,
    ?_, ?_, ?_⟩, fun _ => id, fun _ => .rfl, rfl, id⟩
  · intro idx ref state points
    simp only [others] at state points
    exact safe.weakKept idx ref state points
  · intro handle mem
    simp only [others]
    exact safe.handles handle (known handle mem)
  · intro idx
    simp only [others, counted]
    split
    · rw [safe.refCounts]
    · exact safe.refCounts idx

omit safe in
theorem countP_eraseIdx_handle {pos : Nat} (found : weaks[pos]? = some handle) (idx : Nat) :
    (weaks.eraseIdx pos).countP (fun other => other.impl = idx) =
      if idx = handle.impl then weaks.countP (fun other => other.impl = idx) - 1
      else weaks.countP fun other => other.impl = idx := by
  induction weaks generalizing pos with
  | nil => simp at found
  | cons first rest ih =>
    cases pos with
    | zero =>
      simp only [getElem?_cons_zero, some.injEq] at found
      subst found
      by_cases same : idx = first.impl
      · subst same
        simp
      · simp [same, Ne.symm same]
    | succ =>
      have counted := ih found
      rw [eraseIdx_cons_succ, countP_cons, countP_cons, counted]
      by_cases same : idx = handle.impl
      · subst same
        have positive : 0 < rest.countP fun other => other.impl = handle.impl :=
          countP_pos_iff.mpr ⟨handle, mem_of_getElem? found, by simp⟩
        simp only [if_pos]
        omega
      · simp [if_neg same]

theorem step_splits (fresh : ∀ ref, heap.LiveAt ref → ref.identity < heap.nextIdentity)
    (steps : heap.step action = some after) : heap.Splits action after := by
  cases action with
  | beginAllocate => exact (begin_allocate_passes safe fresh steps).splits rfl
  | finishAllocate => exact finish_allocate_splits safe steps
  | defer =>
    cases steps
    have counted : heap.gcDeferrals + 1 = (Scope.deferral :: heap.scopes).length := by
      rw [length_cons, safe.scopes]
    refine (safe.rescope counted ?_).passes.splits rfl
    simp only [Heap.constructing, filterMap_cons]
  | undefer => exact undefer_splits safe steps
  | collect stackWords =>
    cases steps
    exact ⟨fun runs => collect_garbage_pause safe (beq_iff_eq.mp runs) stackWords _,
      fun deferred =>
        (collect_garbage_deferred safe (beq_eq_false_iff_ne.mp deferred) stackWords).passes⟩
  | timer turns =>
    cases steps
    refine (Quiet.passes ?_).splits rfl
    by_cases runs : heap.gcDeferrals = 0
    · exact (sweep_on_timer_sweeps safe.layout).quiet safe runs
    · have skipped : heap.sweepOnTimer turns = heap := by
        simp [sweepOnTimer, isGcDeferred, Nat.pos_of_ne_zero runs]
      rw [skipped]
      exact safe.with_flag _
  | load _ edge =>
    obtain ⟨source, held, steps⟩ := bind_eq_some_iff.mp steps
    obtain ⟨cell, there, steps⟩ := bind_eq_some_iff.mp steps
    obtain ⟨target, edge, rfl⟩ := map_eq_some_iff.mp steps
    refine (safe.reroot (forall_mem_cons.mpr ⟨?_, fun ref => safe.roots_kept⟩)).passes.splits rfl
    exact safe.edges source cell (safe.roots_kept (mem_of_getElem? held)) there _
      (mem_of_getElem? edge)
  | store =>
    obtain ⟨source, held, steps⟩ := bind_eq_some_iff.mp steps
    obtain ⟨stored, targetHeld, rfl⟩ := map_eq_some_iff.mp steps
    refine (update_cell_quiet safe ?_ ?_).passes.splits rfl
    · exact fun _ => ⟨rfl, rfl⟩
    · intro cell ref mem
      rcases mem_cons.mp mem with rfl | old
      · exact .inr (safe.roots_kept (mem_of_getElem? targetHeld))
      · exact .inl old
  | dropEdge =>
    obtain ⟨source, held, rfl⟩ := map_eq_some_iff.mp steps
    refine (update_cell_quiet safe ?_ ?_).passes.splits rfl
    · exact fun _ => ⟨rfl, rfl⟩
    · exact fun cell ref mem => .inl (mem_of_mem_eraseIdx mem)
  | dropRoot =>
    cases steps
    refine (safe.reroot fun ref mem => ?_).passes.splits rfl
    exact safe.roots_kept (mem_of_mem_eraseIdx mem)
  | createWeak => exact (create_weak_quiet safe steps).passes.splits rfl
  | copyWeak =>
    obtain ⟨handle, found, rfl⟩ := map_eq_some_iff.mp steps
    have mem := mem_of_getElem? found
    refine (change_ref_count_quiet safe ?_ ?_).passes.splits rfl
    · exact forall_mem_cons.mpr ⟨mem, fun _ old => old⟩
    · intro idx
      by_cases same : idx = handle.impl
      · simp [same]
      · simp [same, Ne.symm same]
  | dropWeak =>
    obtain ⟨handle, found, rfl⟩ := map_eq_some_iff.mp steps
    refine (change_ref_count_quiet safe ?_ ?_).passes.splits rfl
    · exact fun other known => mem_of_mem_eraseIdx known
    · exact countP_eraseIdx_handle found
  | readWeak =>
    obtain ⟨handle, found, steps⟩ := bind_eq_some_iff.mp steps
    obtain ⟨cell, points, rfl⟩ := map_eq_some_iff.mp steps
    refine (safe.reroot (forall_mem_cons.mpr ⟨?_, fun ref => safe.roots_kept⟩)).passes.splits rfl
    exact safe.weakKept _ _ (safe.handles handle (mem_of_getElem? found)).1 points

end

structure Exact (heap : Heap) : Prop where
  safe : heap.Safe
  sorted : heap.Sorted
  fresh : ∀ ref, heap.LiveAt ref → ref.identity < heap.nextIdentity

theorem Passes.exact (passes : Passes heap after) (exact : heap.Exact) : after.Exact := by
  refine ⟨passes.advances.1, passes.sorted exact.sorted, fun ref live => ?_⟩
  rcases passes.new ref live with old | ⟨-, fresh, -⟩
  · exact Nat.lt_of_lt_of_le (exact.fresh ref old) passes.grows
  · exact fresh

theorem Pause.exact {settled : Heap} (pause : Pause heap settled after) (exact : heap.Exact) :
    after.Exact := by
  have ready := pause.quiet.passes.exact exact
  obtain ⟨words, flag, rfl⟩ := pause.marked
  have usable (started : Heap) (alloc : Nat) :
      (started.startIncrementalSweep.allocators alloc).usableBlocks =
        (started.allocators alloc).usableBlocks := by
    simp only [startIncrementalSweep]
    split <;> rfl
  refine ⟨((mark_and_start_safe ready.safe pause.idle pause.running).with_flag flag).safe,
    fun idx block found => ?_, ready.fresh⟩
  refine ⟨(ready.sorted idx block found).1, ?_⟩
  rw [← (ready.sorted idx block found).2]
  exact Eq.to_iff (congrArg (idx ∈ ·) (usable _ block.allocator))

theorem Exact.step (exact : heap.Exact) (steps : heap.step action = some after) :
    after.Exact ∧ Advances heap after := by
  obtain ⟨pauses, passes⟩ := step_splits exact.safe exact.fresh steps
  cases collects : heap.collects action with
  | true =>
    have pause := pauses collects
    refine ⟨pause.exact exact, (pause.exact exact).safe, fun ref kept => ?_⟩
    obtain ⟨words, flag, rfl⟩ := pause.marked
    exact ((pause.quiet.kept ref).mpr kept).1
  | false => exact ⟨(passes collects).exact exact, (passes collects).advances⟩

theorem initial_safe {cellCounts : Nat → Nat} : (initial cellCounts).Safe := by
  have unpending : ∀ idx, ¬ (initial cellCounts).Pending idx := by
    rintro idx ⟨alloc, pending⟩
    exact not_mem_nil pending
  refine ⟨⟨?_, ?_, ?_, fun _ => nodup_nil, ?_, fun _ => nodup_nil, ?_,
    fun _ => unpending, fun _ _ _ => rfl, ?_⟩, rfl, ?_, ?_, ?_, ?_, fun _ => rfl⟩
  · intro idx block found
    cases found
  · intro idx block found
    cases found
  · intro alloc idx mem
    exact absurd mem not_mem_nil
  · intro alloc idx mem
    exact absurd mem not_mem_nil
  · intro alloc pending
    exact absurd rfl pending
  · intro runs
    cases runs
  · intro ref mem
    exact absurd mem not_mem_nil
  · intro holder cell _ there
    cases there
  · intro idx ref state
    cases state
  · intro handle mem
    exact absurd mem not_mem_nil

theorem run_exact {cellCounts : Nat → Nat}
    (run : Execution step Unrestricted (initial cellCounts) heap) : heap.Exact :=
  run.invariant Exact ⟨initial_safe, nofun, nofun⟩ fun _ _ _ exact _ steps =>
    (exact.step steps).1

/-- In every run: a step frees no cell that the mutator can reach when it is taken, and a
weak reference never reads as a cell that is gone or as another cell in its slot. -/
theorem incremental_collection_is_safe (cellCounts : Nat → Nat) (heap : Heap)
    (run : Execution step Unrestricted (initial cellCounts) heap) :
    (∀ action after, heap.step action = some after →
      ∀ reference, heap.Reachable reference → ¬ Deallocated heap after reference) ∧
    (∀ reference, heap.Reachable reference → heap.LiveAt reference) ∧
    ∀ handle ∈ heap.weaks, heap.ReadsRight handle := by
  have exact := run_exact run
  have safe := exact.safe
  refine ⟨?_, fun reference reachable => (safe.reachable_kept reachable).1,
    fun handle member reference points => ?_⟩
  · rintro action after stepped reference reachable ⟨-, gone⟩
    exact gone ((exact.step stepped).2.2 reference (safe.reachable_kept reachable))
  · obtain ⟨allocated, identity⟩ := safe.handles handle member
    exact ⟨identity reference points, (safe.weakKept _ reference allocated points).1⟩

def sweepingRun : List Action :=
  [.beginAllocate 0 0, .finishAllocate [], .createWeak 0 0, .beginAllocate 1 1,
    .finishAllocate [], .createWeak 0 1, .store 0 2, .dropEdge 0 0, .dropRoot 3, .dropRoot 2,
    .collect []]

theorem incremental_collection_is_safe_sweeping :
    ∃ heap, Execution step Unrestricted (initial fun _ => 2) heap ∧
      (heap.incrementalSweepActive = true ∧ heap.roots ≠ [] ∧
        heap.weaks.map (fun handle => (heap.weakImpls handle.impl).ptr.isSome) = [true, false]) ∧
      (∀ action after, heap.step action = some after →
        ∀ reference, heap.Reachable reference → ¬ Deallocated heap after reference) ∧
      (∀ reference, heap.Reachable reference → heap.LiveAt reference) ∧
      ∀ handle ∈ heap.weaks, heap.ReadsRight handle := by
  have ends : ((follow step (fun _ _ => true) (initial fun _ => 2) sweepingRun).any fun heap =>
      heap.incrementalSweepActive && decide (heap.roots ≠ []) &&
        decide (heap.weaks.map (fun handle => (heap.weakImpls handle.impl).ptr.isSome) =
          [true, false])) = true := by
    decide +kernel
  obtain ⟨heap, followed, shape⟩ := (Option.any_eq_true ..).mp ends
  simp only [Bool.and_eq_true, decide_eq_true_eq] at shape
  have run : Execution step Unrestricted (initial fun _ => 2) heap :=
    Execution.of_actions sweepingRun followed
  exact ⟨heap, run, ⟨shape.1.1, shape.1.2, shape.2⟩,
    incremental_collection_is_safe (fun _ => 2) heap run⟩

end Ladybone.GC.Heap
