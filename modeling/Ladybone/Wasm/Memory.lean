import Mathlib.Data.BitVec
import Ladybone.Support.Overwrite

/-!
# WebAssembly memory instances

Transcription of `MemoryInstance` and of the byte stores of `BytecodeInterpreter`. A
memory never reaches 4 GiB, whatever its address type: `grow` refuses every size from
65536 pages on, so the bound is part of the instance.
-/

namespace Ladybone.Wasm.Memory

open Support.Overwrite List

abbrev Byte := BitVec 8

/-- `Wasm::Value`: 128 raw bits, read at the width its user asks for. -/
abbrev Value := BitVec 128

def Value.toU32 (value : Value) : Nat := value.toNat % 2 ^ 32

def Value.toU64 (value : Value) : Nat := value.toNat % 2 ^ 64

theorem Value.to_u32_lt (val : Value) : val.toU32 < 2 ^ 32 :=
  Nat.mod_lt _ (by decide)

inductive AddressType where
  | i32
  | i64
deriving DecidableEq

inductive ValueType where
  | i32
  | i64
  | f32
  | f64
  | v128
deriving DecidableEq

structure Limits where
  addressType : AddressType
  min : Nat
  max : Option Nat
deriving DecidableEq

def Limits.addressValueType (limits : Limits) : ValueType :=
  match limits.addressType with
  | .i32 => .i32
  | .i64 => .i64

def pageSize : Nat := 65536

structure MemoryInstance where
  limits : Limits
  data : List Byte
  bounded : data.length < pageSize * 65536

namespace MemoryInstance

def size (memory : MemoryInstance) : Nat := memory.data.length

theorem size_lt (memory : MemoryInstance) : memory.size < 2 ^ 32 := memory.bounded

inductive GrowType where
  | no
  | yes
deriving DecidableEq

/-- `grow`; `resizes` says whether the host can provide a buffer of that many bytes. -/
def grow (resizes : Nat → Bool) (memory : MemoryInstance) (sizeToGrow : Nat)
    (growType : GrowType) : Option MemoryInstance :=
  if sizeToGrow = 0 then some memory
  else
    let newSize := (memory.size + sizeToGrow) % 2 ^ 64
    if bound : pageSize * 65536 ≤ newSize then none
    else if (memory.limits.max.any fun max => max * pageSize % 2 ^ 64 < newSize) then none
    else if !resizes newSize then none
    else
      some {
        limits :=
          match growType with
          | .yes => { memory.limits with min := memory.limits.min + sizeToGrow / pageSize }
          | .no => memory.limits
        data := (memory.data ++ List.replicate sizeToGrow 0).take newSize
        bounded := by
          rw [length_take]
          omega }

def empty (limits : Limits) : MemoryInstance where
  limits := limits
  data := []
  bounded := by decide

/-- `create` multiplies in 64 bits: 2^48 pages, the most a 64-bit memory may declare,
come out as no page at all. -/
def create (resizes : Nat → Bool) (limits : Limits) : Option MemoryInstance :=
  grow resizes (empty limits) (limits.min * pageSize % 2 ^ 64) .no

def write (memory : MemoryInstance) (start : Nat) (bytes : List Byte) : MemoryInstance where
  limits := memory.limits
  data := overwrite memory.data start bytes
  bounded := by
    rw [length_overwrite]
    exact memory.bounded

@[simp] theorem size_write {memory : MemoryInstance} {start : Nat} {bytes : List Byte} :
    (memory.write start bytes).size = memory.size :=
  length_overwrite

end MemoryInstance

structure Store where
  memories : List MemoryInstance
  datas : List (List Byte)

/-- The addresses a module's index spaces stand for; two indices may share a memory. -/
structure ModuleInstance where
  (memories datas : List Nat)

/-- How an instruction handler ends. `escaped` is an access to host memory outside the
buffer of the instance. -/
inductive Outcome where
  | continues (store : Store) (result : Option Value)
  | trapped (reason : String) (store : Store)
  | escaped

namespace Store

def byteAt (store : Store) (address index : Nat) : Option Byte :=
  match store.memories[address]? with
  | some memory => memory.data[index]?
  | none => none

def memorySize (store : Store) (address : Nat) : Nat :=
  match store.memories[address]? with
  | some memory => memory.size
  | none => 0

def dataSize (store : Store) (address : Nat) : Nat :=
  (store.datas.getD address []).length

def dataByte (store : Store) (address index : Nat) : Option Byte :=
  (store.datas.getD address [])[index]?

/-- `store_to_memory(MemoryInstance&, u64, T)`: the end of the range is a checked sum. -/
def storeToMemory (store : Store) (address start : Nat) (bytes : List Byte) : Outcome :=
  match store.memories[address]? with
  | none => .escaped
  | some memory =>
    if 2 ^ 64 ≤ start + bytes.length ∨ memory.size < start + bytes.length then
      .trapped "Memory access out of bounds" store
    else
      .continues
        { store with memories := store.memories.set address (memory.write start bytes) } none

/-- The byte loops of the bulk instructions: one checked store for each visited offset,
its value read when its turn comes. -/
def storeEach (address destination : Nat) (value : Store → Nat → Option Byte) :
    List Nat → Store → Outcome
  | [], store => .continues store none
  | offset :: rest, store =>
    match value store offset with
    | none => .escaped
    | some byte =>
      match storeToMemory store address (destination + offset) [byte] with
      | .continues after _ => storeEach address destination value rest after
      | .trapped reason after => .trapped reason after
      | .escaped => .escaped

end Store

/-- `after` is `before` with the bytes at the covered offsets from `start` on of one memory
replaced, and nothing else. -/
structure Store.Replaced (before after : Store) (address start : Nat) (covers : Nat → Prop)
    (byte : Nat → Option Byte) : Prop where
  datas : after.datas = before.datas
  shape : after.memories.map (fun memory => (memory.limits, memory.size)) =
    before.memories.map (fun memory => (memory.limits, memory.size))
  inside : ∀ offset, covers offset → after.byteAt address (start + offset) = byte offset
  outside : ∀ memory index,
    (memory = address → ∀ offset, covers offset → index ≠ start + offset) →
      after.byteAt memory index = before.byteAt memory index

namespace Store

variable {before now after store : Store} {addr start : Nat} {covers : Nat → Prop}
  {byte : Nat → Option Byte} {memory : MemoryInstance}

theorem replaced_refl :
    Replaced store store addr start (fun _ => False) byte where
  datas := rfl
  shape := rfl
  inside := fun _ covered => covered.elim
  outside := fun _ _ _ => rfl

theorem Replaced.congr {others : Nat → Prop}
    (replaced : Replaced before after addr start covers byte)
    (same : ∀ off, covers off ↔ others off) :
    Replaced before after addr start others byte := by
  have equal : covers = others := funext fun off => propext (same off)
  rwa [← equal]

theorem Replaced.keeps (replaced : Replaced before after addr start covers byte)
    {place : Nat} (found : before.memories[place]? = some memory) :
    ∃ later, after.memories[place]? = some later ∧ later.size = memory.size := by
  have shapes := congrArg (fun shapes => shapes[place]?) replaced.shape
  simp only [getElem?_map, found] at shapes
  obtain ⟨later, laterFound, equal⟩ := Option.map_eq_some_iff.mp shapes
  exact ⟨later, laterFound, congrArg Prod.snd equal⟩

section
variable (found : store.memories[addr]? = some memory)

include found

theorem byte_at_set {changed : MemoryInstance} {place idx : Nat} :
    byteAt { store with memories := store.memories.set addr changed } place idx =
      if place = addr then changed.data[idx]? else store.byteAt place idx := by
  have bound : addr < store.memories.length := (List.getElem?_eq_some_iff.mp found).1
  by_cases here : place = addr
  · subst here
    simp only [byteAt, getElem?_set_self bound, if_pos]
  · simp only [byteAt, getElem?_set_ne (Ne.symm here), if_neg here]

theorem shape_set {changed : MemoryInstance} (limits : changed.limits = memory.limits)
    (size : changed.size = memory.size) :
    (store.memories.set addr changed).map (fun memory => (memory.limits, memory.size)) =
      store.memories.map (fun memory => (memory.limits, memory.size)) := by
  have bound : addr < store.memories.length := (List.getElem?_eq_some_iff.mp found).1
  apply ext_getElem?
  intro place
  rw [getElem?_map, getElem?_map]
  by_cases here : place = addr
  · subst here
    rw [getElem?_set_self bound, found, Option.map_some, Option.map_some, limits, size]
  · rw [getElem?_set_ne (Ne.symm here)]

theorem store_to_memory_replaced {bytes : List Byte} (fits : start + bytes.length ≤ memory.size) :
    ∃ after, storeToMemory store addr start bytes = .continues after none ∧
      Replaced store after addr start (· < bytes.length) (fun off => bytes[off]?) := by
  have accepted : ¬ (2 ^ 64 ≤ start + bytes.length ∨ memory.size < start + bytes.length) := by
    have bound := memory.size_lt
    omega
  have stored : storeToMemory store addr start bytes = .continues
      { store with memories := store.memories.set addr (memory.write start bytes) } none := by
    simp only [storeToMemory, found, if_neg accepted]
  refine ⟨_, stored, rfl, ?_, ?_, ?_⟩
  · exact shape_set found rfl MemoryInstance.size_write
  · intro off covered
    rw [byte_at_set found, if_pos rfl, MemoryInstance.write, getElem?_overwrite _ _ fits,
      if_pos ⟨Nat.le_add_right _ _, Nat.add_lt_add_left covered _⟩, Nat.add_sub_cancel_left]
  · intro place idx apart
    rw [byte_at_set found]
    split
    · rename_i here
      subst here
      have outside : ¬ (start ≤ idx ∧ idx < start + bytes.length) := by
        intro covered
        exact apart rfl (idx - start) (by omega) (by omega)
      rw [MemoryInstance.write, getElem?_overwrite _ _ fits, if_neg outside, byteAt, found]
    · rfl

end

theorem Replaced.step (replaced : Replaced before now addr start covers byte)
    (found : before.memories[addr]? = some memory) {off : Nat} {val : Byte}
    (fits : start + off < memory.size) (wanted : byte off = some val) :
    ∃ after, storeToMemory now addr (start + off) [val] = .continues after none ∧
      Replaced before after addr start (fun other => covers other ∨ other = off) byte := by
  obtain ⟨current, currentFound, sameSize⟩ := replaced.keeps found
  have fitsNow : start + off + [val].length ≤ current.size := by
    rwa [sameSize]
  obtain ⟨after, stored, single⟩ := store_to_memory_replaced currentFound fitsNow
  have untouched : ∀ place idx, (place = addr → idx ≠ start + off) →
      after.byteAt place idx = now.byteAt place idx := by
    intro place idx apart
    apply single.outside
    intro here other covered
    have first : other = 0 := by simpa using covered
    rw [first]
    exact apart here
  refine ⟨after, stored, single.datas.trans replaced.datas, single.shape.trans replaced.shape,
    ?_, ?_⟩
  · intro other covered
    by_cases same : other = off
    · subst same
      have written := single.inside 0 (by simp)
      rwa [wanted]
    · have earlier : covers other := covered.resolve_right same
      rw [untouched _ _ (by omega)]
      exact replaced.inside other earlier
  · intro place idx apart
    rw [untouched place idx (fun here => apart here off (.inr rfl))]
    exact replaced.outside place idx (fun here other covered => apart here other (.inl covered))

/-- The byte loop in any order of visits. `clash visited offset` says that the value for
`offset` is read from the place that the visit of `visited` overwrites. -/
theorem store_each_replaced {val : Store → Nat → Option Byte} {clash : Nat → Nat → Prop}
    (found : before.memories[addr]? = some memory) {order : List Nat}
    (reads : ∀ now covers, Replaced before now addr start covers byte →
      ∀ off ∈ order, (∀ visited, covers visited → ¬ clash visited off) →
      val now off = byte off) (fits : ∀ off ∈ order, start + off < memory.size)
    (wanted : ∀ off ∈ order, ∃ item, byte off = some item)
    (apart : order.Pairwise fun visited off => ¬ clash visited off)
    (replaced : Replaced before now addr start covers byte)
    (fresh : ∀ visited off, covers visited → off ∈ order → ¬ clash visited off) :
    ∃ after, storeEach addr start val order now = .continues after none ∧
      Replaced before after addr start (fun off => covers off ∨ off ∈ order) byte := by
  induction order generalizing now covers with
  | nil =>
    refine ⟨now, rfl, replaced.congr ?_⟩
    intro off
    simp
  | cons off _ ih =>
    obtain ⟨item, itemWanted⟩ := wanted off mem_cons_self
    have valueRead : val now off = some item := by
      rwa [reads now covers replaced off mem_cons_self
        (fun visited covered => fresh visited off covered mem_cons_self)]
    obtain ⟨middle, stored, further⟩ := replaced.step found (fits off mem_cons_self) itemWanted
    obtain ⟨apartHere, apartRest⟩ := pairwise_cons.mp apart
    obtain ⟨after, ended, complete⟩ := ih
      (fun now covers replaced other mem =>
        reads now covers replaced other (mem_cons_of_mem _ mem))
      (fun other mem => fits other (mem_cons_of_mem _ mem))
      (fun other mem => wanted other (mem_cons_of_mem _ mem))
      apartRest further (by
        intro visited other covered mem
        rcases covered with earlier | rfl
        · exact fresh visited other earlier (mem_cons_of_mem _ mem)
        · exact apartHere other mem)
    refine ⟨after, ?_, complete.congr ?_⟩
    · rw [storeEach, valueRead]
      simp only [stored]
      exact ended
    · intro other
      rw [mem_cons, or_assoc]

end Store
end Ladybone.Wasm.Memory
