import Mathlib.Algebra.GroupWithZero.Nat
import Ladybone.Support.Marking

/-!
# The garbage-collected heap

Transcription of `Heap`, `CellAllocator`, `HeapBlock` and `WeakBlock`: stop-the-world
marking, sweeping one block at a time between mutator steps, allocation that sweeps its own
pending blocks first, and deferral of collections. What the mutator holds (references on
its stack and in roots, weak references, open `DeferGC` scopes and constructors under way)
is part of the state. Every allocation has an identity of its own, and a reference carries
the identity it was made for, so that a reused slot can be told from the cell that was there.
-/

namespace Ladybone.GC

open Support.Marking

structure Address where
  (block index : Nat)
deriving DecidableEq

structure Reference where
  address : Address
  identity : Nat
deriving DecidableEq

inductive CellState where
  | live
  | dead
deriving DecidableEq

/-- A cell without its mark bit, which stands in `Heap.marks`. -/
structure Cell where
  state : CellState
  identity : Nat
  edges : List Reference
deriving DecidableEq

def freelistEntry : Cell := ⟨.dead, 0, []⟩

/-! ## Blocks -/

/-- The cells are those handed out so far; their number is `m_next_lazy_freelist_index`. -/
structure HeapBlock where
  (allocator cellCount : Nat)
  cells : List Cell
  freelist : List Nat
deriving DecidableEq

namespace HeapBlock

def create (allocator cellCount : Nat) : HeapBlock := ⟨allocator, cellCount, [], []⟩

def isFull (block : HeapBlock) : Bool :=
  !decide (block.cells.length < block.cellCount) && block.freelist.isEmpty

def isLive (block : HeapBlock) (index : Nat) : Bool :=
  match block.cells[index]? with
  | some cell => cell.state == .live
  | none => false

def allocate (block : HeapBlock) (cell : Cell) : Option (Nat × HeapBlock) :=
  match block.freelist with
  | index :: rest =>
    some (index, { block with cells := block.cells.set index cell, freelist := rest })
  | [] =>
    if block.cells.length < block.cellCount then
      some (block.cells.length, { block with cells := block.cells ++ [cell] })
    else none

def deallocate (block : HeapBlock) (index : Nat) : HeapBlock :=
  { block with cells := block.cells.set index freelistEntry, freelist := index :: block.freelist }

/-- What `sweep_block` does with the cell at an index, its mark bit apart. -/
def sweepCell (marked : Nat → Bool) (block : HeapBlock) (index : Nat) : HeapBlock :=
  if block.isLive index && !marked index then block.deallocate index else block

def sweep (marked : Nat → Bool) (block : HeapBlock) : HeapBlock :=
  (List.range block.cells.length).foldl (sweepCell marked) block

def hasLiveCells (marked : Nat → Bool) (block : HeapBlock) : Bool :=
  (List.range block.cells.length).any fun index => block.isLive index && marked index

end HeapBlock

structure CellAllocator where
  cellCount : Nat
  (fullBlocks usableBlocks blocksPendingSweep : List Nat)
deriving DecidableEq

def CellAllocator.blocks (allocator : CellAllocator) : List Nat :=
  allocator.fullBlocks ++ allocator.usableBlocks

/-! ## Weak references -/

inductive WeakState where
  | allocated
  | freelist
deriving DecidableEq

structure WeakImpl where
  ptr : Option Reference
  refCount : Nat
  state : WeakState
deriving DecidableEq

/-- A `Weak<T>` the mutator holds: its `WeakImpl` and the cell it was made for. -/
structure WeakHandle where
  (impl identity : Nat)
deriving DecidableEq

/-! ## The heap -/

/-- What holds `m_gc_deferrals` up: a `DeferGC`, or a constructor inside `allocate`. -/
inductive Scope where
  | deferral
  | construction (cell : Reference)
deriving DecidableEq

structure Heap where
  blocks : Nat → Option HeapBlock
  marks : Address → Bool
  allocators : Nat → CellAllocator
  (allCellAllocators allocatorsToSweep : List Nat)
  incrementalSweepActive : Bool
  cellsAllocatedDuringSweep : List Address
  gcDeferrals : Nat
  shouldGcWhenDeferralEnds : Bool
  weakImpls : Nat → WeakImpl
  roots : List Reference
  weaks : List WeakHandle
  scopes : List Scope
  nextIdentity : Nat

def Heap.initial (cellCounts : Nat → Nat) : Heap where
  blocks := fun _ => none
  marks := fun _ => false
  allocators := fun allocator => ⟨cellCounts allocator, [], [], []⟩
  allCellAllocators := []
  allocatorsToSweep := []
  incrementalSweepActive := false
  cellsAllocatedDuringSweep := []
  gcDeferrals := 0
  shouldGcWhenDeferralEnds := false
  weakImpls := fun _ => ⟨none, 0, .freelist⟩
  roots := []
  weaks := []
  scopes := []
  nextIdentity := 0

namespace Heap

variable (heap : Heap)

def cellAt (address : Address) : Option Cell :=
  match heap.blocks address.block with
  | some block => block.cells[address.index]?
  | none => none

def isLive (address : Address) : Bool :=
  match heap.blocks address.block with
  | some block => block.isLive address.index
  | none => false

def isGcDeferred : Bool := decide (0 < heap.gcDeferrals)

def constructing : List Reference :=
  heap.scopes.filterMap fun
    | .deferral => none
    | .construction cell => some cell

/-! ### Sweeping -/

def reclassify (allocator : CellAllocator) (index : Nat) (hasLive becameUsable : Bool) :
    CellAllocator :=
  let pending := allocator.blocksPendingSweep.erase index
  if !hasLive then
    { allocator with
      blocksPendingSweep := pending
      fullBlocks := allocator.fullBlocks.erase index
      usableBlocks := allocator.usableBlocks.erase index }
  else if becameUsable then
    { allocator with
      blocksPendingSweep := pending
      fullBlocks := allocator.fullBlocks.erase index
      usableBlocks := allocator.usableBlocks.erase index ++ [index] }
  else { allocator with blocksPendingSweep := pending }

def sweepBlock (index : Nat) : Heap :=
  match heap.blocks index with
  | none => heap
  | some block =>
    let marked := fun cell => heap.marks ⟨index, cell⟩
    let swept := block.sweep marked
    let hasLive := block.hasLiveCells marked
    { heap with
      blocks := Function.update heap.blocks index (if hasLive then some swept else none)
      marks := fun address =>
        if address.block = index ∧ block.isLive address.index then false
        else heap.marks address
      allocators := Function.update heap.allocators block.allocator
        (reclassify (heap.allocators block.allocator) index hasLive
          (block.isFull && !swept.isFull)) }

/-- The search of `sweep_next_block` for an allocator with pending blocks; the flag says
that there is none. -/
def sweepFirstPending (heap : Heap) : List Nat → Bool × Heap
  | [] => (true, { heap with allocatorsToSweep := [] })
  | allocator :: rest =>
    match (heap.allocators allocator).blocksPendingSweep with
    | [] => sweepFirstPending heap rest
    | index :: _ =>
      let swept := heap.sweepBlock index
      (false,
        { swept with
          allocatorsToSweep :=
            if (swept.allocators allocator).blocksPendingSweep = [] then rest
            else allocator :: rest })

def sweepNextBlock : Bool × Heap :=
  if !heap.incrementalSweepActive then (true, heap)
  else if heap.isGcDeferred then (true, heap)
  else heap.sweepFirstPending heap.allocatorsToSweep

def finishIncrementalSweep : Heap :=
  { heap with
    marks := fun address =>
      if address ∈ heap.cellsAllocatedDuringSweep then false else heap.marks address
    cellsAllocatedDuringSweep := []
    incrementalSweepActive := false }

/-- Sweeps at most `turns` blocks and ends the sweep when none is left. -/
def sweepSlice (heap : Heap) : Nat → Heap
  | 0 => heap
  | turns + 1 =>
    match heap.sweepNextBlock with
    | (true, swept) => swept.finishIncrementalSweep
    | (false, swept) => sweepSlice swept turns

def pendingBlocks : Nat :=
  (heap.allocatorsToSweep.map fun allocator =>
    (heap.allocators allocator).blocksPendingSweep.length).sum

def finishPendingIncrementalSweep : Heap :=
  if !heap.incrementalSweepActive || heap.isGcDeferred then heap
  else heap.sweepSlice (heap.pendingBlocks + 1)

def sweepOnTimer (turns : Nat) : Heap :=
  if !heap.incrementalSweepActive then heap
  else if heap.isGcDeferred then heap
  else heap.sweepSlice turns

def startIncrementalSweep : Heap :=
  let allocators := fun index =>
    let allocator := heap.allocators index
    if index ∈ heap.allCellAllocators then
      { allocator with
        blocksPendingSweep :=
          allocator.blocksPendingSweep.filter (fun block => !allocator.blocks.contains block) ++
            allocator.blocks }
    else allocator
  { heap with
    incrementalSweepActive := true
    allocators := allocators
    allocatorsToSweep := heap.allocatorsToSweep ++
      heap.allCellAllocators.filter fun index => !(allocators index).blocksPendingSweep.isEmpty }

/-! ### Marking -/

def edgesOf (address : Address) : List Address :=
  match heap.cellAt address with
  | some cell => cell.edges.map Reference.address
  | none => []

def blockAddresses (index : Nat) : List Address :=
  match heap.blocks index with
  | some block => (List.range block.cells.length).map fun cell => ⟨index, cell⟩
  | none => []

def addresses : List Address :=
  heap.allCellAllocators.flatMap fun allocator =>
    (heap.allocators allocator).blocks.flatMap heap.blockAddresses

/-- All references the mutator holds, and the live cells that words of its stack happen to
point to. -/
def gatherRoots (stackWords : List Address) : List Address :=
  (heap.roots ++ heap.constructing).map Reference.address ++ stackWords.filter heap.isLive

def markLiveCells (roots : List Address) : Heap :=
  { heap with marks := mark heap.edgesOf heap.addresses.length heap.marks roots }

def sweepWeakImpl (marked : Address → Bool) (impl : WeakImpl) : WeakImpl :=
  match impl.state with
  | .freelist => impl
  | .allocated =>
    let ptr := impl.ptr.filter fun cell => marked cell.address
    if impl.refCount = 0 then ⟨none, 0, .freelist⟩ else { impl with ptr := ptr }

def sweepWeakBlocks : Heap :=
  { heap with weakImpls := fun index => sweepWeakImpl heap.marks (heap.weakImpls index) }

def collectGarbage (stackWords : List Address) : Heap :=
  let settled := heap.finishPendingIncrementalSweep
  if 0 < settled.gcDeferrals then { settled with shouldGcWhenDeferralEnds := true }
  else
    ((settled.markLiveCells (settled.gatherRoots stackWords)).sweepWeakBlocks).startIncrementalSweep

/-! ### Deferral and allocation -/

def deferGc : Heap := { heap with gcDeferrals := heap.gcDeferrals + 1 }

def undeferGc (stackWords : List Address) : Heap :=
  let released := { heap with gcDeferrals := heap.gcDeferrals - 1 }
  if released.gcDeferrals = 0 then
    let collected :=
      if released.shouldGcWhenDeferralEnds then released.collectGarbage stackWords else released
    { collected with shouldGcWhenDeferralEnds := false }
  else released

def registerCellAllocator (allocator : Nat) : Heap :=
  if allocator ∈ heap.allCellAllocators then heap
  else { heap with allCellAllocators := heap.allCellAllocators ++ [allocator] }

/-- Allocation-directed sweeping: own pending blocks until one of them is usable. -/
def sweepOwnBlocks (heap : Heap) (allocator : Nat) : Nat → Heap
  | 0 => heap
  | turns + 1 =>
    if (heap.allocators allocator).usableBlocks.isEmpty then
      match (heap.allocators allocator).blocksPendingSweep with
      | [] => heap
      | index :: _ => sweepOwnBlocks (heap.sweepBlock index) allocator turns
    else heap

def withBlock (allocator newBlock : Nat) : Heap :=
  let owner := heap.allocators allocator
  { heap with
    blocks := Function.update heap.blocks newBlock
      (some (HeapBlock.create allocator owner.cellCount))
    allocators := Function.update heap.allocators allocator
      { owner with usableBlocks := owner.usableBlocks ++ [newBlock] } }

/-- A block at an address the block allocator hands out; it may have been a block before. -/
def addBlock (allocator newBlock : Nat) : Option Heap :=
  if (heap.allocators allocator).usableBlocks.isEmpty then
    match heap.blocks newBlock with
    | some _ => none
    | none => some (heap.withBlock allocator newBlock)
  else some heap

def afterTaking (owner : CellAllocator) (index : Nat) (full : Bool) : CellAllocator :=
  if full then
    { owner with
      usableBlocks := owner.usableBlocks.erase index
      fullBlocks := owner.fullBlocks ++ [index] }
  else owner

/-- The heap with a cell taken from a block and its `Cell` constructor run. -/
def handOut (allocator index cell : Nat) (changed : HeapBlock) : Heap :=
  { heap with
    blocks := Function.update heap.blocks index (some changed)
    marks := Function.update heap.marks ⟨index, cell⟩ false
    allocators := Function.update heap.allocators allocator
      (afterTaking (heap.allocators allocator) index changed.isFull)
    nextIdentity := heap.nextIdentity + 1 }

def takeCell (allocator : Nat) : Option (Reference × Heap) :=
  match (heap.allocators allocator).usableBlocks.getLast? with
  | none => none
  | some index =>
    match heap.blocks index with
    | none => none
    | some block =>
      match block.allocate ⟨.live, heap.nextIdentity, []⟩ with
      | none => none
      | some (cell, changed) =>
        some (⟨⟨index, cell⟩, heap.nextIdentity⟩, heap.handOut allocator index cell changed)

def allocateCell (allocator newBlock : Nat) : Option (Reference × Heap) :=
  let registered := heap.registerCellAllocator allocator
  let owner := registered.allocators allocator
  let swept :=
    if owner.usableBlocks.isEmpty && registered.incrementalSweepActive && !registered.isGcDeferred
    then registered.sweepOwnBlocks allocator owner.blocksPendingSweep.length
    else registered
  (swept.addBlock allocator newBlock).bind fun ready => ready.takeCell allocator

/-! ### Runs -/

/-- `allocate` is two steps, with whatever the constructor does between them. The mutator
reads, writes and drops references it holds; collections may be requested at any time. -/
inductive Action where
  | beginAllocate (allocator newBlock : Nat)
  | finishAllocate (stackWords : List Address)
  | defer
  | undefer (stackWords : List Address)
  | collect (stackWords : List Address)
  | timer (turns : Nat)
  | load (holder edge : Nat)
  | store (holder target : Nat)
  | dropEdge (holder edge : Nat)
  | dropRoot (root : Nat)
  | createWeak (root impl : Nat)
  | copyWeak (weak : Nat)
  | dropWeak (weak : Nat)
  | readWeak (weak : Nat)
deriving DecidableEq

section
variable (heap : Heap)

def updateCell (address : Address) (change : Cell → Cell) : Heap :=
  match heap.blocks address.block with
  | none => heap
  | some block =>
    { heap with
      blocks := Function.update heap.blocks address.block
        (some { block with cells := block.cells.modify address.index change }) }

/-- From here on `cell` is on the stack of `allocate`, and collections are deferred. -/
def enterConstructor (cell : Reference) : Heap :=
  { heap.deferGc with
    scopes := .construction cell :: heap.scopes
    roots := cell :: heap.roots }

def beginAllocate (allocator newBlock : Nat) : Option Heap :=
  (heap.allocateCell allocator newBlock).map fun (cell, allocated) =>
    allocated.enterConstructor cell

/-- Cells allocated during a sweep are marked and recorded. -/
def tagDuringSweep (cell : Address) : Heap :=
  if heap.incrementalSweepActive then
    { heap with
      marks := Function.update heap.marks cell true
      cellsAllocatedDuringSweep := heap.cellsAllocatedDuringSweep ++ [cell] }
  else heap

def finishAllocate (stackWords : List Address) : Option Heap :=
  match heap.scopes with
  | .construction cell :: outer =>
    let tagged := heap.tagDuringSweep cell.address
    some ({ tagged with scopes := outer, roots := cell :: tagged.roots }.undeferGc stackWords)
  | _ => none

def undefer (stackWords : List Address) : Option Heap :=
  match heap.scopes with
  | .deferral :: outer => some ({ heap with scopes := outer }.undeferGc stackWords)
  | _ => none

def createWeak (root impl : Nat) : Option Heap :=
  match heap.roots[root]? with
  | none => none
  | some cell =>
    if (heap.weakImpls impl).state = .freelist then
      some { heap with
        weakImpls := Function.update heap.weakImpls impl ⟨some cell, 1, .allocated⟩
        weaks := ⟨impl, cell.identity⟩ :: heap.weaks }
    else none

def changeRefCount (impl : Nat) (change : Nat → Nat) : Heap :=
  { heap with
    weakImpls := Function.update heap.weakImpls impl
      { heap.weakImpls impl with refCount := change (heap.weakImpls impl).refCount } }

def step : Action → Option Heap
  | .beginAllocate allocator newBlock => heap.beginAllocate allocator newBlock
  | .finishAllocate stackWords => heap.finishAllocate stackWords
  | .defer => some { heap.deferGc with scopes := .deferral :: heap.scopes }
  | .undefer stackWords => heap.undefer stackWords
  | .collect stackWords => some (heap.collectGarbage stackWords)
  | .timer turns => some (heap.sweepOnTimer turns)
  | .load holder edge =>
    (heap.roots[holder]?).bind fun source =>
      (heap.cellAt source.address).bind fun cell =>
        (cell.edges[edge]?).map fun target => { heap with roots := target :: heap.roots }
  | .store holder target =>
    (heap.roots[holder]?).bind fun source =>
      (heap.roots[target]?).map fun reference =>
        heap.updateCell source.address fun cell => { cell with edges := reference :: cell.edges }
  | .dropEdge holder edge =>
    (heap.roots[holder]?).map fun source =>
      heap.updateCell source.address fun cell => { cell with edges := cell.edges.eraseIdx edge }
  | .dropRoot root => some { heap with roots := heap.roots.eraseIdx root }
  | .createWeak root impl => heap.createWeak root impl
  | .copyWeak weak =>
    (heap.weaks[weak]?).map fun handle =>
      { heap.changeRefCount handle.impl (· + 1) with weaks := handle :: heap.weaks }
  | .dropWeak weak =>
    (heap.weaks[weak]?).map fun handle =>
      { heap.changeRefCount handle.impl (· - 1) with weaks := heap.weaks.eraseIdx weak }
  | .readWeak weak =>
    (heap.weaks[weak]?).bind fun handle =>
      ((heap.weakImpls handle.impl).ptr).map fun cell => { heap with roots := cell :: heap.roots }

end
end Heap
end Ladybone.GC
