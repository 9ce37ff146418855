import Ladybone.Support.Checks
import Ladybone.Wasm.MemoryAccess

/-!
# Exactness of WebAssembly memory accesses

Each handler is compared with the access it should make. `Verdict` collects what there is
to know about one handler: it traps unless its own bounds test accepts, it never traps
when the test accepts, and it makes the intended access when nothing was lost; the test
accepts every access that fits.
-/

namespace Ladybone.Wasm.MemoryExact

open Support.Checks Wasm.Memory Wasm.MemoryAccess List

structure Verdict (access : Access) (store : Store) (outcome : Outcome)
    (accepts lossless : Prop) : Prop where
  refuses : ¬ accepts → ∃ reason, outcome = .trapped reason store
  proceeds : accepts → ∀ reason after, outcome ≠ .trapped reason after
  performs : accepts → lossless →
    ∃ after, outcome = .continues after access.result ∧ access.Performed store after
  fitting : (∀ range ∈ access.ranges, range.Inside store) → accepts ∧ lossless
  fits : accepts → lossless → ∀ range ∈ access.ranges, range.Inside store

variable {outcome : Outcome} {store : Store} {access : Access} {idx : Nat}

theorem Verdict.exact_iff {accepts lossless : Prop}
    (verdict : Verdict access store outcome accepts lossless) :
    access.Exact store outcome ↔ lossless ∨ ¬ accepts := by
  constructor
  · intro exact_
    by_contra neither
    obtain ⟨lossy, accepted⟩ := not_or.mp neither
    have accepted := not_not.mp accepted
    have outside : ∃ range ∈ access.ranges, ¬ range.Inside store := by
      by_contra none
      refine lossy (verdict.fitting ?_).2
      intro range mem
      by_contra outside
      exact none ⟨range, mem, outside⟩
    obtain ⟨reason, trapped⟩ := exact_.traps outside
    exact verdict.proceeds accepted reason store trapped
  · intro condition
    by_cases accepted : accepts
    · have kept : lossless := condition.resolve_right (not_not.mpr accepted)
      have inside := verdict.fits accepted kept
      refine ⟨?_, fun _ => verdict.performs accepted kept⟩
      rintro ⟨range, mem, outside⟩
      exact absurd (inside range mem) outside
    · refine ⟨fun _ => verdict.refuses accepted, ?_⟩
      intro inside
      exact absurd (verdict.fitting inside).1 accepted

/-! ## Operands -/

section
variable (takes : List ValueType) (srcs : Nat → Value) {takes srcs}

theorem narrowed_eq (small : fullOperand takes srcs idx < 2 ^ 32) :
    (srcs idx).toU32 = fullOperand takes srcs idx := by
  rw [← Nat.mod_eq_of_lt small, fullOperand]
  split
  · exact (Nat.mod_mod_of_dvd _ (by decide)).symm
  · exact (Nat.mod_eq_of_lt (Value.to_u32_lt _)).symm

end

theorem memory_size_of_found {addr : Nat} {memory : MemoryInstance}
    (found : store.memories[addr]? = some memory) : store.memorySize addr = memory.size := by
  rw [Store.memorySize, found]

theorem memory_size_lt (store : Store) (addr : Nat) : store.memorySize addr < 2 ^ 32 := by
  unfold Store.memorySize
  split
  · exact MemoryInstance.size_lt _
  · decide

section
variable {module : ModuleInstance} {store : Store} {argument : MemoryArgument}
  {memory : MemoryInstance} {base full width : Nat}
  (found : store.memories[memoryAddress module argument.memoryIndex]? = some memory)

theorem Verdict.of_tests
    {accepts lossless : Prop} (keeps : (∀ range ∈ access.ranges, range.Inside store) → lossless)
    (tests : lossless → (accepts ↔ ∀ range ∈ access.ranges, range.Inside store))
    (refuses : ¬ accepts → ∃ reason, outcome = .trapped reason store)
    (proceeds : accepts → ∀ reason after, outcome ≠ .trapped reason after)
    (performs : accepts → lossless →
      ∃ after, outcome = .continues after access.result ∧ access.Performed store after) :
    Verdict access store outcome accepts lossless := by
  refine ⟨refuses, proceeds, performs, ?_, fun accepted kept => (tests kept).mp accepted⟩
  intro inside
  exact ⟨(tests (keeps inside)).mpr inside, keeps inside⟩

theorem single_inside {addr start : Nat} (found : store.memories[addr]? = some memory) :
    (∀ range ∈ [(⟨.memory addr, start, width⟩ : Range)], range.Inside store) ↔
      start + width ≤ memory.size := by
  rw [forall_mem_singleton, Range.Inside, regionSize, memory_size_of_found found]

include found in
theorem load_verdict {result : List Byte → Value} (narrowed : full < 2 ^ 32 → base = full) :
    Verdict (intendedLoad module store argument full width result) store
      (loadWith module store argument base width result)
      (((base + argument.offset.toNat) % 2 ^ 64 + width) % 2 ^ 64 ≤
        store.memorySize (memoryAddress module argument.memoryIndex))
      (full < 2 ^ 32 ∧ full + argument.offset.toNat + width < 2 ^ 64) := by
  have bound := memory.size_lt
  rw [memory_size_of_found found]
  apply Verdict.of_tests
  · rw [intendedLoad, single_inside found]
    omega
  · rintro ⟨small, noWrap⟩
    rw [intendedLoad, single_inside found, narrowed small,
      Nat.mod_eq_of_lt (show full + argument.offset.toNat < 2 ^ 64 by omega),
      Nat.mod_eq_of_lt noWrap]
  · intro refused
    refine ⟨"Memory access out of bounds", ?_⟩
    simp only [loadWith, found, if_pos (Nat.lt_of_not_le refused)]
  · intro accepted reason after
    simp only [loadWith, found, if_neg (Nat.not_lt.mpr accepted)]
    split <;> exact Outcome.noConfusion
  · rintro accepted ⟨small, noWrap⟩
    have addr : (full + argument.offset.toNat) % 2 ^ 64 = full + argument.offset.toNat :=
      Nat.mod_eq_of_lt (by omega)
    rw [narrowed small, addr, Nat.mod_eq_of_lt noWrap] at accepted
    refine ⟨store, ?_, rfl⟩
    simp only [loadWith, found, intendedLoad, readBytes, narrowed small, addr,
      Nat.mod_eq_of_lt noWrap, if_neg (Nat.not_lt.mpr accepted), if_pos accepted]

include found in
theorem store_verdict (bytes : List Byte) (narrowed : full < 2 ^ 32 → base = full) :
    Verdict (intendedStore module argument full bytes) store
      (storeAt module store argument bytes base)
      ((base + argument.offset.toNat) % 2 ^ 64 + bytes.length ≤
        store.memorySize (memoryAddress module argument.memoryIndex))
      (full < 2 ^ 32 ∧ full + argument.offset.toNat + bytes.length < 2 ^ 64) := by
  have bound := memory.size_lt
  rw [memory_size_of_found found]
  apply Verdict.of_tests
  · rw [intendedStore, single_inside found]
    omega
  · rintro ⟨small, noWrap⟩
    rw [intendedStore, single_inside found, narrowed small, Nat.mod_eq_of_lt (by omega)]
  · intro refused
    refine ⟨"Memory access out of bounds", ?_⟩
    simp only [storeAt, Store.storeToMemory, found, if_pos (Or.inr (Nat.lt_of_not_le refused))]
  · intro accepted reason after
    obtain ⟨later, stored, -⟩ := Store.store_to_memory_replaced found accepted
    rw [storeAt, stored]
    exact Outcome.noConfusion
  · rintro accepted ⟨small, noWrap⟩
    have addr : (base + argument.offset.toNat) % 2 ^ 64 = full + argument.offset.toNat := by
      rw [narrowed small, Nat.mod_eq_of_lt (by omega)]
    rw [addr] at accepted
    rw [storeAt, addr]
    exact Store.store_to_memory_replaced found accepted

end

section
variable {module : ModuleInstance} {store : Store} {takes : List ValueType} {srcs : Nat → Value}
  {memory : MemoryInstance} {addr start count memoryIndex srcIndex dstIndex dataIndex : Nat}
  {byte : Nat → Option Byte} {order : List Nat} {origin : MemoryInstance}

theorem loop_replaced {value : Store → Nat → Option Byte} {clash : Nat → Nat → Prop}
    (found : store.memories[addr]? = some memory) (fits : start + count ≤ memory.size)
    (visits : ∀ off, off ∈ order ↔ off < count)
    (reads : ∀ now covers, store.Replaced now addr start covers byte →
      ∀ off < count, (∀ visited, covers visited → ¬ clash visited off) →
        value now off = byte off) (wanted : ∀ off < count, ∃ item, byte off = some item)
    (apart : order.Pairwise fun visited off => ¬ clash visited off) :
    ∃ after, store.storeEach addr start value order = .continues after none ∧
      store.Replaced after addr start (· < count) byte := by
  obtain ⟨after, ended, replaced⟩ := Store.store_each_replaced found
    (fun now covers replaced off mem =>
      reads now covers replaced off ((visits off).mp mem))
    (fun off mem => by
      have bound := (visits off).mp mem
      omega)
    (fun off mem => wanted off ((visits off).mp mem))
    apart Store.replaced_refl
    (fun _ _ covered => covered.elim)
  refine ⟨after, ended, replaced.congr ?_⟩
  intro off
  rw [false_or, visits]

theorem replaced_none : store.Replaced store addr start (· < 0) byte :=
  Store.replaced_refl.congr (by simp)

section
variable (found : store.memories[memoryAddress module memoryIndex]? = some memory)
  (accepted : (srcs 2).toU32 + (srcs 0).toU32 ≤ memory.size)
  (sourceFound : store.memories[memoryAddress module srcIndex]? = some origin)

include found

include accepted in
theorem memory_fill_accepts :
    ∃ after, memoryFill module store srcs memoryIndex = .continues after none ∧
      store.Replaced after (memoryAddress module memoryIndex) (srcs 2).toU32
        (· < (srcs 0).toU32) (fun _ => some ((srcs 1).setWidth 8)) := by
  have bound := memory.size_lt
  have passes : ¬ (2 ^ 64 ≤ (srcs 2).toU32 + (srcs 0).toU32 ∨
      memory.size < (srcs 2).toU32 + (srcs 0).toU32) := by omega
  have low : BitVec.ofNat 8 (srcs 1).toU32 = (srcs 1).setWidth 8 := by
    apply BitVec.eq_of_toNat_eq
    exact Nat.mod_mod_of_dvd _ (by decide)
  simp only [memoryFill, memory_size_of_found found, if_neg passes, low]
  split
  · rename_i empty
    rw [empty]
    exact ⟨store, rfl, replaced_none⟩
  · exact loop_replaced found accepted (fun _ => mem_range)
      (fun _ _ _ _ _ _ => rfl) (fun _ _ => ⟨_, rfl⟩)
      (pairwise_lt_range.imp fun _ => not_false)

omit found in
theorem saturating_add_to_u32 {left right : Value} :
    saturatingAdd left.toU32 right.toU32 = left.toU32 + right.toU32 := by
  have leftBound := left.to_u32_lt
  have rightBound := right.to_u32_lt
  unfold saturatingAdd
  omega

omit found in
theorem copy_loop_replaced {source first : Nat}
    (sourceFound : store.memories[source]? = some origin) (readable : first + count ≤ origin.size)
    (found : store.memories[addr]? = some memory) (fits : start + count ≤ memory.size)
    (visits : ∀ off, off ∈ order ↔ off < count) (apart : order.Pairwise fun visited off =>
      ¬ (source = addr ∧ first + off = start + visited)) :
    ∃ after, store.storeEach addr start
        (fun now off => now.byteAt source ((first + off) % 2 ^ 32)) order = .continues after none ∧
      store.Replaced after addr start (· < count)
        (fun off => store.byteAt source (first + off)) := by
  have bound := origin.size_lt
  apply loop_replaced found fits visits _ _ apart
  · intro now covers replaced off below separate
    have short : (first + off) % 2 ^ 32 = first + off := Nat.mod_eq_of_lt (by omega)
    rw [short]
    apply replaced.outside
    intro same visited covered equal
    exact separate visited covered ⟨same, equal⟩
  · intro off below
    have inside : first + off < origin.data.length := by
      have size : origin.data.length = origin.size := rfl
      omega
    refine ⟨origin.data.get ⟨first + off, inside⟩, ?_⟩
    rw [Store.byteAt, sourceFound]
    exact getElem?_eq_getElem inside

omit found in
include accepted sourceFound in
theorem memory_copy_accepts (found : store.memories[memoryAddress module dstIndex]? = some memory)
    (readable : (srcs 1).toU32 + (srcs 0).toU32 ≤ origin.size) :
    ∃ after, memoryCopy module store srcs srcIndex dstIndex = .continues after none ∧
      store.Replaced after (memoryAddress module dstIndex) (srcs 2).toU32
        (· < (srcs 0).toU32) (fun off =>
          store.byteAt (memoryAddress module srcIndex) ((srcs 1).toU32 + off)) := by
  simp only [memoryCopy, memory_size_of_found sourceFound, memory_size_of_found found,
    saturating_add_to_u32, if_neg (Nat.not_lt.mpr readable), if_neg (Nat.not_lt.mpr accepted)]
  split
  · rename_i empty
    rw [empty]
    exact ⟨store, rfl, replaced_none⟩
  · split
    -- forwards: what has been written lies below what is still to be read
    · apply copy_loop_replaced sourceFound readable found accepted (fun _ => mem_range)
      apply pairwise_lt_range.imp
      omega
    · apply copy_loop_replaced sourceFound readable found accepted
        (fun _ => mem_reverse.trans mem_range)
      rw [pairwise_reverse]
      apply pairwise_lt_range.imp
      omega

theorem memory_init_accepts (readable : (srcs 1).toU32 + (srcs 0).toU32 ≤
      store.dataSize (dataAddress module dataIndex))
    (accepted : (srcs 2).toU32 + (srcs 0).toU32 ≤ memory.size) :
    ∃ after, memoryInit module store srcs dataIndex memoryIndex = .continues after none ∧
      store.Replaced after (memoryAddress module memoryIndex) (srcs 2).toU32
        (· < (srcs 0).toU32) (fun off =>
          store.dataByte (dataAddress module dataIndex) ((srcs 1).toU32 + off)) := by
  simp only [memoryInit, memory_size_of_found found, saturating_add_to_u32,
    if_neg (Nat.not_lt.mpr readable), if_neg (Nat.not_lt.mpr accepted)]
  split
  · rename_i empty
    rw [empty]
    exact ⟨store, rfl, replaced_none⟩
  · apply loop_replaced found accepted (fun _ => mem_range) _ _
      (pairwise_lt_range.imp fun _ => not_false)
    · intro now covers replaced off _ _
      rw [Store.dataByte, replaced.datas, Store.dataByte]
    · intro off below
      have inside : (srcs 1).toU32 + off <
          (store.datas.getD (dataAddress module dataIndex) []).length := by
        rw [Store.dataSize] at readable
        omega
      exact ⟨_, getElem?_eq_getElem inside⟩

theorem fill_verdict :
    Verdict (intended module store takes srcs (.memoryFill memoryIndex)) store
      (memoryFill module store srcs memoryIndex)
      (Accepts module store srcs (.memoryFill memoryIndex))
      (Lossless takes srcs (.memoryFill memoryIndex)) := by
  have bound := memory.size_lt
  have size := memory_size_of_found found
  apply Verdict.of_tests
  · rw [intended, single_inside found, Lossless]
    omega
  · rintro ⟨smallCount, smallStart⟩
    rw [Accepts, size, intended, single_inside found, narrowed_eq smallCount,
      narrowed_eq smallStart]
  · intro refused
    simp only [memoryFill]
    rw [if_pos (.inr (Nat.lt_of_not_le refused))]
    exact ⟨_, rfl⟩
  · intro accepted reason after
    obtain ⟨later, ended, -⟩ := memory_fill_accepts found (by rwa [Accepts, size] at accepted)
    rw [ended]
    exact Outcome.noConfusion
  · rintro accepted ⟨smallCount, smallStart⟩
    rw [Accepts, size] at accepted
    simp only [intended, ← narrowed_eq smallCount, ← narrowed_eq smallStart]
    exact memory_fill_accepts found accepted

omit found in
theorem move_verdict {region : Region} (found : store.memories[addr]? = some memory)
    (sourceSmall : fullOperand takes srcs 1 + fullOperand takes srcs 0 ≤
      regionSize store region → fullOperand takes srcs 1 < 2 ^ 32)
    (refuses : ¬ ((srcs 1).toU32 + (srcs 0).toU32 ≤ regionSize store region ∧
      (srcs 2).toU32 + (srcs 0).toU32 ≤ store.memorySize addr) →
        ∃ reason, outcome = .trapped reason store)
    (moves : (srcs 1).toU32 + (srcs 0).toU32 ≤ regionSize store region →
      (srcs 2).toU32 + (srcs 0).toU32 ≤ memory.size →
        ∃ after, outcome = .continues after none ∧
          store.Replaced after addr (srcs 2).toU32 (· < (srcs 0).toU32)
            (fun off => byte ((srcs 1).toU32 + off))) :
    Verdict
      { ranges := [⟨region, fullOperand takes srcs 1, fullOperand takes srcs 0⟩,
          ⟨.memory addr, fullOperand takes srcs 2, fullOperand takes srcs 0⟩]
        result := none
        update := some ⟨addr, fullOperand takes srcs 2, fullOperand takes srcs 0,
          fun off => byte (fullOperand takes srcs 1 + off)⟩ }
      store outcome
      ((srcs 1).toU32 + (srcs 0).toU32 ≤ regionSize store region ∧
        (srcs 2).toU32 + (srcs 0).toU32 ≤ store.memorySize addr)
      (fullOperand takes srcs 0 < 2 ^ 32 ∧ fullOperand takes srcs 1 < 2 ^ 32 ∧
        fullOperand takes srcs 2 < 2 ^ 32) := by
  have bound := memory.size_lt
  have size := memory_size_of_found found
  apply Verdict.of_tests
  · rw [forall_mem_cons, single_inside found]
    rintro ⟨readable, writable⟩
    have smallFirst := sourceSmall readable
    omega
  · rintro ⟨smallCount, smallFirst, smallStart⟩
    rw [forall_mem_cons, single_inside found, size, narrowed_eq smallCount,
      narrowed_eq smallFirst, narrowed_eq smallStart, Range.Inside]
  · exact refuses
  · rintro ⟨readable, writable⟩ reason after
    rw [size] at writable
    obtain ⟨later, ended, -⟩ := moves readable writable
    rw [ended]
    exact Outcome.noConfusion
  · rintro ⟨readable, writable⟩ ⟨smallCount, smallFirst, smallStart⟩
    rw [size] at writable
    simp only [Access.Performed, ← narrowed_eq smallCount, ← narrowed_eq smallFirst,
      ← narrowed_eq smallStart]
    exact moves readable writable

omit found in
theorem either_test_refuses {size₁ size₂ end₁ end₂ : Nat} {text₁ text₂ : String}
    (refused : ¬ (end₁ ≤ size₁ ∧ end₂ ≤ size₂)) :
    ∃ reason, (if size₁ < end₁ then .trapped text₁ store
      else if size₂ < end₂ then .trapped text₂ store else outcome) = .trapped reason store := by
  split_ifs with unreadable unwritable
  · exact ⟨_, rfl⟩
  · exact ⟨_, rfl⟩
  · exact absurd ⟨Nat.not_lt.mp unreadable, Nat.not_lt.mp unwritable⟩ refused

omit found in
include sourceFound in
theorem copy_verdict (found : store.memories[memoryAddress module dstIndex]? = some memory) :
    Verdict (intended module store takes srcs (.memoryCopy srcIndex dstIndex)) store
      (memoryCopy module store srcs srcIndex dstIndex)
      (Accepts module store srcs (.memoryCopy srcIndex dstIndex))
      (Lossless takes srcs (.memoryCopy srcIndex dstIndex)) := by
  have bound := memory_size_lt store (memoryAddress module srcIndex)
  refine move_verdict found ?_ ?_ ?_
  · intro readable
    rw [regionSize] at readable
    omega
  · intro refused
    rw [memoryCopy]
    simp only [saturating_add_to_u32]
    exact either_test_refuses refused
  · intro readable writable
    rw [regionSize, memory_size_of_found sourceFound] at readable
    exact memory_copy_accepts writable sourceFound found readable

theorem init_verdict (sourceSmall : fullOperand takes srcs 1 < 2 ^ 32) :
    Verdict (intended module store takes srcs (.memoryInit dataIndex memoryIndex)) store
      (memoryInit module store srcs dataIndex memoryIndex)
      (Accepts module store srcs (.memoryInit dataIndex memoryIndex))
      (Lossless takes srcs (.memoryInit dataIndex memoryIndex)) := by
  refine move_verdict found (fun _ => sourceSmall) ?_ (memory_init_accepts found)
  intro refused
  rw [memoryInit]
  simp only [saturating_add_to_u32]
  exact either_test_refuses refused

end
end

/-! ## Validated instructions -/

/-- What instantiation provides: every declared memory is in the store. -/
def Linked (context : Context) (module : ModuleInstance) (store : Store) : Prop :=
  ∀ index limits, context.memories[index]? = some limits →
    ∃ memory, store.memories[memoryAddress module index]? = some memory

theorem validated_memory {Result : Type} {context : Context} {module : ModuleInstance}
    {rest : Limits → Except ValidationError Result} {result : Result}
    (linked : Linked context module store)
    (valid : (validateMemoryIndex context idx >>= rest) = .ok result) :
    ∃ memory, store.memories[memoryAddress module idx]? = some memory := by
  obtain ⟨limits, indexed, -⟩ := bind_eq_ok.mp valid
  unfold validateMemoryIndex at indexed
  split at indexed
  · rename_i found
    exact linked idx _ found
  · cases indexed

theorem memory_accesses_exact_iff (context : Context) (module : ModuleInstance) (store : Store)
    (instruction : Instruction) (signature : Signature) (sources : Nat → Value)
    (linked : Linked context module store)
    (valid : validateInstruction context instruction = .ok signature) :
    (intended module store signature.takes sources instruction).Exact store
        (execute module store sources instruction) ↔
      Lossless signature.takes sources instruction ∨
        ¬ Accepts module store sources instruction := by
  apply Verdict.exact_iff
  have narrowed : fullOperand signature.takes sources 1 < 2 ^ 32 →
      (sources 1).toU32 = fullOperand signature.takes sources 1 := narrowed_eq
  cases instruction with
  | load =>
    obtain ⟨memory, found⟩ := validated_memory linked valid
    exact load_verdict found narrowed_eq
  | loadLane =>
    obtain ⟨_, -, valid⟩ := bind_eq_ok.mp valid
    obtain ⟨memory, found⟩ := validated_memory linked valid
    exact load_verdict found narrowed_eq
  | store opcode =>
    obtain ⟨memory, found⟩ := validated_memory linked valid
    have verdict := store_verdict found (opcode.bytes (sources 0)) narrowed
    rwa [StoreOpcode.bytes, length_to_little_endian] at verdict
  | storeLane width argument =>
    obtain ⟨_, -, valid⟩ := bind_eq_ok.mp valid
    obtain ⟨memory, found⟩ := validated_memory linked valid
    have verdict := store_verdict found (laneBytes width argument.lane (sources 0)) narrowed
    rwa [laneBytes, length_to_little_endian] at verdict
  | memoryFill =>
    obtain ⟨memory, found⟩ := validated_memory linked valid
    exact fill_verdict found
  | memoryCopy =>
    obtain ⟨origin, sourceFound⟩ := validated_memory linked valid
    obtain ⟨_, -, valid⟩ := bind_eq_ok.mp valid
    obtain ⟨memory, found⟩ := validated_memory linked valid
    exact copy_verdict sourceFound found
  | memoryInit =>
    rw [validateInstruction] at valid
    split at valid
    · cases valid
    · obtain ⟨memory, found⟩ := validated_memory linked valid
      obtain ⟨_, -, valid⟩ := bind_eq_ok.mp valid
      obtain ⟨_, -, valid⟩ := bind_eq_ok.mp valid
      cases valid
      exact init_verdict found (Value.to_u32_lt _)

theorem linked_single {memory : MemoryInstance} :
    Linked ⟨[memory.limits], 0, none⟩ ⟨[0], []⟩ ⟨[memory], []⟩ := by
  intro idx found declared
  have first : idx = 0 := by
    have bound := (List.getElem?_eq_some_iff.mp declared).1
    simpa using bound
  subst first
  exact ⟨memory, rfl⟩

/-- One page that starts with 1, 2, 3. -/
def pageMemory : MemoryInstance where
  limits := ⟨.i64, 1, none⟩
  data := 1 :: 2 :: 3 :: List.replicate (pageSize - 3) 0
  bounded := by
    simp only [length_cons, length_replicate]
    decide

/-- Three bytes are moved up by one. -/
theorem overlapping_copy_exact :
    let store : Store := ⟨[pageMemory], []⟩
    let sources : Nat → Value := fun index => [3, 0, 1].getD index 0
    ∃ after, execute ⟨[0], []⟩ store sources (.memoryCopy 0 0) = .continues after none ∧
      [0, 1, 2, 3, 4].map (after.byteAt 0) = [some 1, some 1, some 2, some 3, some 0] ∧
      (intended ⟨[0], []⟩ store [.i64, .i64, .i64] sources (.memoryCopy 0 0)).Exact store
        (execute ⟨[0], []⟩ store sources (.memoryCopy 0 0)) := by
  intro store sources
  have exact_ := (memory_accesses_exact_iff ⟨[pageMemory.limits], 0, none⟩ ⟨[0], []⟩ store
    (.memoryCopy 0 0) ⟨[.i64, .i64, .i64], []⟩ sources linked_single rfl).mpr (.inl (by decide))
  have size : store.memorySize 0 = pageSize := by
    change (1 :: 2 :: 3 :: List.replicate (pageSize - 3) (0 : Byte)).length = pageSize
    simp only [length_cons, length_replicate]
    rfl
  have inside : ∀ range ∈ (intended ⟨[0], []⟩ store [.i64, .i64, .i64] sources
      (.memoryCopy 0 0)).ranges, range.Inside store := by
    intro range mem
    rcases mem_pair.mp mem with rfl | rfl
    all_goals
      unfold Range.Inside
      change _ ≤ store.memorySize 0
      rw [size]
      decide
  obtain ⟨after, ended, replaced⟩ := exact_.acts inside
  refine ⟨after, ended, ?_, exact_⟩
  have moved : ∀ offset < 3, after.byteAt 0 (1 + offset) = store.byteAt 0 (0 + offset) :=
    replaced.inside
  have kept : ∀ index, (∀ offset < 3, index ≠ 1 + offset) →
      after.byteAt 0 index = store.byteAt 0 index :=
    fun index apart => replaced.outside 0 index fun _ => apart
  have bytes : [0, 1, 2, 3, 4].map (after.byteAt 0) =
      [store.byteAt 0 0, store.byteAt 0 0, store.byteAt 0 1, store.byteAt 0 2,
        store.byteAt 0 4] := by
    simp only [map_cons, map_nil]
    rw [kept 0 (by decide), kept 4 (by decide)]
    exact congrArg _ (congrArg₂ _ (moved 0 (by decide)) (congrArg₂ _ (moved 1 (by decide))
      (congrArg₂ _ (moved 2 (by decide)) rfl)))
  rw [bytes]
  rfl

/-- A 64-bit memory without pages and `i32.load offset=2^64-4` at address 0: the end of the
range wraps to 0, the bounds test passes and the host memory before the buffer is read. -/
theorem load_escapes_behind_wrapped_end :
    let limits : Limits := ⟨.i64, 0, none⟩
    let store : Store := ⟨[MemoryInstance.empty limits], []⟩
    let load : Instruction := .load .i32Load ⟨0, BitVec.ofNat 64 (2 ^ 64 - 4), 0⟩
    MemoryInstance.create (fun _ => true) limits = some (MemoryInstance.empty limits) ∧
      Linked ⟨[limits], 0, none⟩ ⟨[0], []⟩ store ∧
      validateInstruction ⟨[limits], 0, none⟩ load = .ok ⟨[.i64], [.i32]⟩ ∧
      execute ⟨[0], []⟩ store (fun _ => 0) load = .escaped ∧
      ¬ (intended ⟨[0], []⟩ store [.i64] (fun _ => 0) load).Exact store
        (execute ⟨[0], []⟩ store (fun _ => 0) load) := by
  refine ⟨rfl, @linked_single (MemoryInstance.empty _), by decide, rfl, ?_⟩
  intro exact_
  obtain ⟨reason, trapped⟩ := exact_.traps ⟨_, mem_singleton.mpr rfl, by
    decide +kernel⟩
  cases trapped

end Ladybone.Wasm.MemoryExact
