import Mathlib.Data.List.Infix
import Mathlib.Algebra.Order.Ring.Nat

/-!
# Aligned binary formats

A writer appends bytes that depend on how many are there already; a reader consumes bytes
and knows its offset in the whole input. Padding is computed from the length on one side and
from the offset on the other, so a writer and a reader agree as long as the writer's start
stands at an aligned offset. `Reads` is that agreement, with rules for sequences of fields,
repeated items and payloads that are written apart and embedded.
-/

namespace Ladybone.Support.Codec

open List Option

abbrev Bytes := List UInt8

/-! ## Padding -/

def padding (alignment length : Nat) : Nat := (alignment - length % alignment) % alignment

theorem padding_add {align base : Nat} (aligned : align ∣ base) {len : Nat} :
    padding align (base + len) = padding align len := by
  obtain ⟨factor, rfl⟩ := aligned
  rw [padding, padding, Nat.mul_add_mod]

theorem dvd_add_padding {align : Nat} (positive : 0 < align) (len : Nat) :
    align ∣ len + padding align len := by
  have below := Nat.mod_lt len positive
  apply Nat.dvd_of_mod_eq_zero
  unfold padding
  by_cases even : len % align = 0
  · simp [even]
  · rw [Nat.mod_eq_of_lt (by omega : align - len % align < align), Nat.add_mod,
      Nat.mod_eq_of_lt (by omega : align - len % align < align),
      Nat.add_sub_cancel' (Nat.le_of_lt below), Nat.mod_self]

/-! ## Little-endian numbers -/

def littleEndian : Nat → Nat → Bytes
  | 0, _ => []
  | width + 1, value => UInt8.ofNat (value % 256) :: littleEndian width (value / 256)

def fromLittleEndian : Bytes → Nat
  | [] => 0
  | byte :: rest => byte.toNat + 256 * fromLittleEndian rest

@[simp]
theorem length_little_endian {width val : Nat} : (littleEndian width val).length = width := by
  induction width generalizing val with
  | zero => rfl
  | succ _ ih => rw [littleEndian, length_cons, ih]

theorem from_little_endian {width val : Nat} (fits : val < 256 ^ width) :
    fromLittleEndian (littleEndian width val) = val := by
  induction width generalizing val with
  | zero =>
    have zero : val = 0 := by omega
    rw [littleEndian, fromLittleEndian, zero]
  | succ width ih =>
    have smaller : val / 256 < 256 ^ width := by
      apply Nat.div_lt_of_lt_mul
      rwa [Nat.pow_succ, Nat.mul_comm] at fits
    have byte : (UInt8.ofNat (val % 256)).toNat = val % 256 := by
      rw [UInt8.toNat_ofNat']
      omega
    rw [littleEndian, fromLittleEndian, ih smaller]
    omega

/-! ## Writers -/

/-- From the number of bytes there already, the bytes to append; `none` is a panic. -/
def Writer := Nat → Option Bytes

namespace Writer

def raw (bytes : Bytes) : Writer := fun _ => some bytes

def all : List Writer → Writer
  | [] => fun _ => some []
  | first :: rest => fun length =>
    (first length).bind fun written =>
      (all rest (length + written.length)).map fun more => written ++ more

theorem all_cons {first : Writer} {rest : List Writer} {len : Nat} {written : Bytes}
    (wrote : all (first :: rest) len = some written) :
    ∃ head tail, first len = some head ∧ all rest (len + head.length) = some tail ∧
      written = head ++ tail := by
  obtain ⟨head, wroteHead, wrote⟩ := bind_eq_some_iff.mp wrote
  obtain ⟨tail, wroteTail, rfl⟩ := map_eq_some_iff.mp wrote
  exact ⟨head, tail, wroteHead, wroteTail, rfl⟩

theorem all_singleton {only : Writer} : all [only] = only := by
  funext len
  cases wrote : only len with
  | none | some => simp [all, wrote]

def u8 (value : UInt8) : Writer := raw [value]

def bool (value : Bool) : Writer := u8 (if value then 1 else 0)

def u32 (value : UInt32) : Writer := raw (littleEndian 4 value.toNat)

def i32 (value : Int32) : Writer := u32 value.toUInt32

def u64 (value : UInt64) : Writer := raw (littleEndian 8 value.toNat)

/-- A length that does not fit 32 bits is a panic. -/
def size (value : Nat) : Writer := fun length =>
  if value < 2 ^ 32 then u32 (UInt32.ofNat value) length else none

def optional : Option Writer → Writer
  | none => bool false
  | some value => all [bool true, value]

def alignTo (alignment : Nat) : Writer := fun length =>
  some (List.replicate (padding alignment length) 0)

def alignBytesPayloadTo (alignment : Nat) : Writer := fun length =>
  some (List.replicate (padding alignment (length + 4)) 0)

def bytes (content : Bytes) : Writer := all [size content.length, raw content]

/-- Written by a writer of its own, from length zero, and embedded. -/
def embedded (inner : Writer) : Writer := fun length =>
  (inner 0).bind fun content => bytes content length

def sequence {α : Type} (items : List α) (item : α → Writer) : Writer :=
  all [size items.length, all (items.map item)]

end Writer

/-! ## Readers -/

structure Input where
  bytes : Bytes
  offset : Nat
deriving DecidableEq

/-- Bytes behind the ones it consumed change nothing for a reader. -/
structure Reader (α : Type) where
  run : Input → Option (α × Input)
  unbounded : ∀ {bytes rest : Bytes} {offset final : Nat} {value : α} (extra : Bytes),
    run ⟨bytes, offset⟩ = some (value, ⟨rest, final⟩) →
      run ⟨bytes ++ extra, offset⟩ = some (value, ⟨rest ++ extra, final⟩)

open Reader

namespace Reader

variable {α β : Type}

instance : Monad Reader where
  pure value :=
    { run := fun input => some (value, input)
      unbounded := by
        intro bytes rest offset final other extra done
        cases done
        rfl }
  bind first next :=
    { run := fun input => (first.run input).bind fun (value, rest) => (next value).run rest
      unbounded := by
        intro bytes rest offset final value extra done
        obtain ⟨⟨middle, between⟩, ran, done⟩ := bind_eq_some_iff.mp done
        rw [first.unbounded extra ran]
        exact (next middle).unbounded extra done }

theorem run_pure {val : α} {input : Input} :
    (pure val : Reader α).run input = some (val, input) := rfl

theorem run_bind {first : Reader α} {next : α → Reader β} {input : Input} :
    (first >>= next).run input =
      (first.run input).bind fun (val, rest) => (next val).run rest := rfl

def fail : Reader α where
  run _ := none
  unbounded := by
    intro bytes rest offset final value extra done
    cases done

def require (condition : Bool) : Reader Unit := if condition then pure () else fail

def take (count : Nat) : Reader Bytes where
  run input :=
    if input.bytes.length < count then none
    else some (input.bytes.take count, ⟨input.bytes.drop count, input.offset + count⟩)
  unbounded := by
    intro bytes rest offset final value extra done
    simp only at done ⊢
    split at done
    · cases done
    · rename_i enough
      cases done
      have fits : count ≤ bytes.length := by omega
      rw [if_neg (by rw [length_append]; omega), take_append_of_le_length fits,
        drop_append_of_le_length fits]

def offset : Reader Nat where
  run input := some (input.offset, input)
  unbounded := by
    intro bytes rest offset final value extra done
    cases done
    rfl

def notMoreThanLeft (count : Nat) : Reader Unit where
  run input := if count > input.bytes.length then none else some ((), input)
  unbounded := by
    intro bytes rest offset final value extra done
    simp only at done ⊢
    split at done
    · cases done
    · rename_i enough
      cases done
      rw [if_neg (by rw [length_append]; omega)]

def times (item : Reader α) : Nat → Reader (List α)
  | 0 => pure []
  | count + 1 => do
      let first ← item
      let rest ← times item count
      pure (first :: rest)

def u8 : Reader UInt8 := do
  let bytes ← take 1
  match bytes with
  | byte :: _ => pure byte
  | [] => fail

def ofOption : Option α → Reader α
  | some value => pure value
  | none => fail

def tagged (fromTag : UInt8 → Option α) : Reader α := do
  let tag ← u8
  ofOption (fromTag tag)

def bool : Reader Bool := do
  let byte ← u8
  if byte = 0 then pure false else if byte = 1 then pure true else fail

def u32 : Reader UInt32 := do
  let bytes ← take 4
  pure (UInt32.ofNat (fromLittleEndian bytes))

def i32 : Reader Int32 := do
  let bits ← u32
  pure ⟨bits⟩

def u64 : Reader UInt64 := do
  let bytes ← take 8
  pure (UInt64.ofNat (fromLittleEndian bytes))

def size : Reader Nat := do
  let value ← u32
  pure value.toNat

def optional (item : Reader α) : Reader (Option α) := do
  let present ← bool
  if present then do
    let value ← item
    pure (some value)
  else pure none

def alignTo (alignment : Nat) : Reader Unit := do
  let position ← offset
  let _ ← take (padding alignment position)
  pure ()

def alignBytesPayloadTo (alignment : Nat) : Reader Unit := do
  let position ← offset
  let _ ← take (padding alignment (position + 4))
  pure ()

def sequence (item : Reader α) : Reader (List α) := do
  let count ← size
  notMoreThanLeft count
  times item count

def whole (reader : Reader α) (input : Input) : Option α :=
  (reader.run input).bind fun (value, rest) => if rest.bytes = [] then some value else none

end Reader

/-- Bytes that are left in place to be read later. -/
structure Payload where
  offset : Nat
  bytes : Bytes
deriving DecidableEq

namespace Payload

def reader (length : Nat) : Reader Payload := do
  let position ← Reader.offset
  let content ← Reader.take length
  pure ⟨position, content⟩

def input (payload : Payload) : Input := ⟨payload.bytes, payload.offset⟩

/-- The payload is the part of the blob its offset says. -/
def Located (payload : Payload) (blob : Bytes) : Prop :=
  payload.bytes <+: blob.drop payload.offset

end Payload

/-! ## Agreement -/

/-- Wherever in the blob the writer's start stands aligned, the reader gets through exactly
what was written, with a result that has the property. -/
def Reads {β : Type} (blob : Bytes) (alignment : Nat) (write : Writer) (read : Reader β)
    (property : β → Prop) : Prop :=
  ∀ (length base : Nat) (written rest : Bytes), write length = some written →
    alignment ∣ base → written ++ rest <+: blob.drop (base + length) →
      ∃ value, read.run ⟨written ++ rest, base + length⟩ =
        some (value, ⟨rest, base + length + written.length⟩) ∧ property value

section
variable {β γ : Type} {blob : Bytes} {align : Nat} {write : Writer} {writes : List Writer}
  {read : Reader β} {next : β → Reader γ} {property : β → Prop} {final : γ → Prop}
  {reader : Reader γ} {cond : Bool} {val : β}

theorem Reads.mono {weaker : β → Prop} (reads : Reads blob align write read property)
    (implied : ∀ val, property val → weaker val) :
    Reads blob align write read weaker := by
  intro len base written rest wrote aligned there
  obtain ⟨val, ran, holds⟩ := reads len base written rest wrote aligned there
  exact ⟨val, ran, implied val holds⟩

theorem Reads.coarser {finer : Nat} (reads : Reads blob finer write read property)
    (divides : finer ∣ align) : Reads blob align write read property := by
  intro len base written rest wrote aligned there
  exact reads len base written rest wrote (divides.trans aligned) there

theorem Reads.nil (holds : property val) :
    Reads blob align (Writer.all []) (pure val) property := by
  intro len base written rest wrote _ _
  cases wrote
  exact ⟨val, rfl, holds⟩

theorem Reads.cons (first : Reads blob align write read property) (later : ∀ val, property val →
      Reads blob align (Writer.all writes) (next val) final) :
    Reads blob align (Writer.all (write :: writes)) (read >>= next) final := by
  intro len base written rest wrote aligned there
  obtain ⟨head, tail, wroteHead, wroteTail, rfl⟩ := Writer.all_cons wrote
  rw [append_assoc] at there ⊢
  obtain ⟨val, ran, holds⟩ := first len base head (tail ++ rest) wroteHead aligned there
  have behind : tail ++ rest <+: blob.drop (base + (len + head.length)) := by
    have dropped := there.drop head.length
    rwa [drop_left, drop_drop, Nat.add_assoc] at dropped
  obtain ⟨last, ranLast, lastHolds⟩ := later val holds (len + head.length) base tail rest
    wroteTail aligned behind
  refine ⟨last, ?_, lastHolds⟩
  rw [run_bind, ran, bind_some]
  simp only
  rw [Nat.add_assoc, ranLast, length_append, Nat.add_assoc, Nat.add_assoc, Nat.add_assoc]

theorem Reads.field (first : Reads blob align write read (· = val))
    (later : Reads blob align (Writer.all writes) (next val) final) :
    Reads blob align (Writer.all (write :: writes)) (read >>= next) final :=
  first.cons fun _ same => same ▸ later

theorem Reads.last (only : Reads blob align write read property) :
    Reads blob align (Writer.all [write]) read property := by
  rwa [Writer.all_singleton]

theorem Reads.map {result : β → γ} (reads : Reads blob align write read property)
    (implied : ∀ val, property val → final (result val)) :
    Reads blob align write (read >>= fun val => pure (result val)) final := by
  intro len base written rest wrote aligned there
  obtain ⟨val, ran, holds⟩ := reads len base written rest wrote aligned there
  refine ⟨result val, ?_, implied val holds⟩
  rw [run_bind, ran]
  rfl

theorem Reads.require (met : cond = true) (reads : Reads blob align write reader final) :
    Reads blob align write (Reader.require cond >>= fun _ => reader) final := by
  intro len base written rest wrote aligned there
  rw [Reader.require, if_pos met]
  exact reads len base written rest wrote aligned there

/-- The reader fails on what was written, whatever follows. -/
def Rejects (blob : Bytes) (alignment : Nat) (write : Writer) (read : Reader β) : Prop :=
  ∀ (length base : Nat) (written rest : Bytes), write length = some written →
    alignment ∣ base → written ++ rest <+: blob.drop (base + length) →
      read.run ⟨written ++ rest, base + length⟩ = none

theorem Rejects.field (first : Reads blob align write read (· = val))
    (later : Rejects blob align (Writer.all writes) (next val)) :
    Rejects blob align (Writer.all (write :: writes)) (read >>= next) := by
  intro len base written rest wrote aligned there
  obtain ⟨head, tail, wroteHead, wroteTail, rfl⟩ := Writer.all_cons wrote
  rw [append_assoc] at there ⊢
  obtain ⟨_, ran, rfl⟩ := first len base head (tail ++ rest) wroteHead aligned there
  have behind : tail ++ rest <+: blob.drop (base + (len + head.length)) := by
    have dropped := there.drop head.length
    rwa [drop_left, drop_drop, Nat.add_assoc] at dropped
  have failed := later (len + head.length) base tail rest wroteTail aligned behind
  rw [run_bind, ran]
  rwa [← Nat.add_assoc] at failed

theorem Rejects.passing (met : cond = true) (rejects : Rejects blob align write reader) :
    Rejects blob align write (Reader.require cond >>= fun _ => reader) := by
  intro len base written rest wrote aligned there
  rw [require, if_pos met]
  exact rejects len base written rest wrote aligned there

theorem Rejects.failing (unmet : cond = false) :
    Rejects blob align write (Reader.require cond >>= fun _ => reader) := by
  intro len base written rest _ _ _
  rw [require, if_neg (by rw [unmet]; exact Bool.false_ne_true)]
  rfl

end

/-! ### Fixed fields -/

section
variable {blob : Bytes} {align unit : Nat} {α : Type} {item : α → Writer} {val : Option α}

theorem take_append (written rest : Bytes) (off : Nat) :
    (Reader.take written.length).run ⟨written ++ rest, off⟩ =
      some (written, ⟨rest, off + written.length⟩) := by
  simp [Reader.take]

theorem reads_raw {bytes : Bytes} {count : Nat} (sized : bytes.length = count) :
    Reads blob align (Writer.raw bytes) (Reader.take count) (· = bytes) := by
  subst sized
  intro len base written rest wrote _ _
  cases wrote
  exact ⟨bytes, take_append bytes rest _, rfl⟩

theorem reads_u8 {val : UInt8} : Reads blob align (Writer.u8 val) Reader.u8 (· = val) := by
  intro len base written rest wrote _ _
  cases wrote
  exact ⟨val, rfl, rfl⟩

theorem reads_tagged {val : α} {tag : UInt8} {fromTag : UInt8 → Option α}
    (inverse : fromTag tag = some val) :
    Reads blob align (Writer.u8 tag) (Reader.tagged fromTag) (· = val) := by
  intro len base written rest wrote aligned there
  obtain ⟨_, ran, rfl⟩ := reads_u8 len base written rest wrote aligned there
  refine ⟨val, ?_, rfl⟩
  rw [tagged, run_bind, ran, bind_some]
  simp only [inverse]
  rfl

theorem reads_bool {val : Bool} : Reads blob align (Writer.bool val) Reader.bool (· = val) := by
  intro len base written rest wrote _ _
  cases wrote
  cases val <;> exact ⟨_, rfl, rfl⟩

theorem reads_u32 {val : UInt32} : Reads blob align (Writer.u32 val) Reader.u32 (· = val) := by
  refine (reads_raw length_little_endian).map ?_
  rintro _ rfl
  rw [from_little_endian val.toNat_lt]
  exact UInt32.ofNat_toNat

theorem reads_i32 {val : Int32} : Reads blob align (Writer.i32 val) Reader.i32 (· = val) := by
  refine reads_u32.map ?_
  rintro _ rfl
  rfl

theorem reads_u64 {val : UInt64} : Reads blob align (Writer.u64 val) Reader.u64 (· = val) := by
  refine (reads_raw length_little_endian).map ?_
  rintro _ rfl
  rw [from_little_endian val.toNat_lt]
  exact UInt64.ofNat_toNat

theorem run_size {val len : Nat} {written : Bytes} (wrote : Writer.size val len = some written)
    {rest : Bytes} {off : Nat} :
    Reader.size.run ⟨written ++ rest, off⟩ = some (val, ⟨rest, off + 4⟩) ∧ written.length = 4 := by
  unfold Writer.size at wrote
  split at wrote
  · rename_i fits
    cases wrote
    have bits : (UInt32.ofNat val).toNat = val := by
      rw [UInt32.toNat_ofNat', Nat.mod_eq_of_lt fits]
    have read : fromLittleEndian (littleEndian 4 val) = val := from_little_endian fits
    have taken := take_append (littleEndian 4 val) rest off
    rw [length_little_endian] at taken
    refine ⟨?_, length_little_endian⟩
    rw [size, u32]
    simp only [run_bind, taken, bind_some, run_pure, read, bits]
  · cases wrote

theorem reads_size {val : Nat} : Reads blob align (Writer.size val) Reader.size (· = val) := by
  intro len base written rest wrote _ _
  obtain ⟨ran, four⟩ := run_size wrote
  exact ⟨val, by rw [ran, four], rfl⟩

theorem reads_optional {β : Type} {read : Reader β} {related : α → β → Prop}
    (reads : ∀ present, val = some present →
      Reads blob align (item present) read (related present)) :
    Reads blob align (Writer.optional (val.map item)) (Reader.optional read)
      (Option.Rel related val) := by
  cases val with
  | none =>
    intro len base written rest wrote _ _
    cases wrote
    exact ⟨none, rfl, .none⟩
  | some present =>
    refine Reads.field reads_bool ?_
    exact ((reads present rfl).map fun _ holds => Option.Rel.some holds).last

theorem reads_optional_eq {read : Reader α} (reads : ∀ present, val = some present →
      Reads blob align (item present) read (· = present)) :
    Reads blob align (Writer.optional (val.map item)) (Reader.optional read) (· = val) := by
  have related : Reads blob align (Writer.optional (val.map item)) (optional read)
      (Option.Rel (fun present found => found = present) val) := reads_optional reads
  refine related.mono fun found same => ?_
  cases same with
  | some same => rw [same]
  | none => rfl

theorem reads_align_to (divides : unit ∣ align) :
    Reads blob align (Writer.alignTo unit) (Reader.alignTo unit) fun _ => True := by
  intro len base written rest wrote aligned _
  cases wrote
  refine ⟨(), ?_, trivial⟩
  have same : padding unit (base + len) =
      (List.replicate (padding unit len) (0 : UInt8)).length := by
    rw [padding_add (divides.trans aligned), length_replicate]
  simp only [alignTo, run_bind, offset, bind_some, same, take_append, run_pure]

theorem reads_align_bytes_payload_to (divides : unit ∣ align) :
    Reads blob align (Writer.alignBytesPayloadTo unit) (Reader.alignBytesPayloadTo unit)
      fun _ => True := by
  intro len base written rest wrote aligned _
  cases wrote
  refine ⟨(), ?_, trivial⟩
  have same : padding unit (base + len + 4) =
      (List.replicate (padding unit (len + 4)) (0 : UInt8)).length := by
    rw [Nat.add_assoc, padding_add (divides.trans aligned), length_replicate]
  simp only [alignBytesPayloadTo, run_bind, offset, bind_some, same, take_append, run_pure]

end

/-! ### Repeated items -/

section
variable {α β : Type} {blob : Bytes} {align : Nat} {item : α → Writer} {read : Reader β}
  {related : α → β → Prop} {items : List α} {write : Writer}

def Positive (write : Writer) : Prop :=
  ∀ length written, write length = some written → 0 < written.length

theorem positive_cons {writes : List Writer} (positive : Positive write) :
    Positive (Writer.all (write :: writes)) := by
  intro len written wrote
  obtain ⟨head, tail, wroteHead, -, rfl⟩ := Writer.all_cons wrote
  have := positive len head wroteHead
  rw [length_append]
  omega

theorem positive_behind {writes : List Writer}
    (positive : Positive (Writer.all writes)) : Positive (Writer.all (write :: writes)) := by
  intro len written wrote
  obtain ⟨head, tail, -, wroteTail, rfl⟩ := Writer.all_cons wrote
  have := positive _ tail wroteTail
  rw [length_append]
  omega

theorem positive_u8 {val : UInt8} : Positive (Writer.u8 val) := by
  intro len written wrote
  cases wrote
  exact Nat.one_pos

theorem positive_bool {val : Bool} : Positive (Writer.bool val) := positive_u8

theorem positive_u32 {val : UInt32} : Positive (Writer.u32 val) := by
  intro len written wrote
  cases wrote
  rw [length_little_endian]
  omega

theorem positive_size {val : Nat} : Positive (Writer.size val) := by
  intro len written wrote
  unfold Writer.size at wrote
  split at wrote
  · exact positive_u32 len written wrote
  · cases wrote

theorem positive_optional {val : Option Writer} : Positive (Writer.optional val) := by
  cases val with
  | none => exact positive_bool
  | some => exact positive_cons positive_bool

variable (positive : ∀ entry ∈ items, Positive (item entry))
  (reads : ∀ entry ∈ items, Reads blob align (item entry) read (related entry))

include positive in
theorem length_le_of_positive {len : Nat} {written : Bytes}
    (wrote : Writer.all (items.map item) len = some written) :
    items.length ≤ written.length := by
  induction items generalizing len written with
  | nil => exact Nat.zero_le _
  | cons first _ ih =>
    obtain ⟨head, tail, wroteHead, wroteTail, rfl⟩ := Writer.all_cons wrote
    have headLength := positive first mem_cons_self len head wroteHead
    have tailLength := ih (fun entry mem => positive entry (mem_cons_of_mem _ mem)) wroteTail
    rw [length_cons, length_append]
    omega

include reads in
theorem reads_times :
    Reads blob align (Writer.all (items.map item)) (Reader.times read items.length)
      (List.Forall₂ related items) := by
  induction items with
  | nil => exact Reads.nil .nil
  | cons first _ ih =>
    refine (reads first mem_cons_self).cons fun val holds => ?_
    exact (ih fun entry mem => reads entry (mem_cons_of_mem _ mem)).map
      fun _ others => .cons holds others

include positive reads in
theorem reads_sequence :
    Reads blob align (Writer.sequence items item) (Reader.sequence read)
      (List.Forall₂ related items) := by
  refine Reads.field reads_size ?_
  intro len base written rest wrote aligned there
  have enough : items.length ≤ written.length := by
    rw [Writer.all_singleton] at wrote
    exact length_le_of_positive positive wrote
  obtain ⟨vals, ran, holds⟩ := (reads_times reads).last len base written rest wrote aligned there
  refine ⟨vals, ?_, holds⟩
  simp only [run_bind, notMoreThanLeft]
  rw [if_neg (by rw [length_append]; omega)]
  exact ran

theorem eq_of_forall₂ {vals : List α}
    (same : List.Forall₂ (fun entry val => val = entry) items vals) : vals = items := by
  induction same with
  | nil => rfl
  | cons head _ ih => rw [head, ih]

include positive in
theorem reads_sequence_eq {read : Reader α}
    (reads : ∀ entry ∈ items, Reads blob align (item entry) read (· = entry)) :
    Reads blob align (Writer.sequence items item) (Reader.sequence read) (· = items) := by
  have related : Reads blob align (Writer.sequence items item) (sequence read)
      (List.Forall₂ (fun entry val => val = entry) items) := reads_sequence positive reads
  exact related.mono fun _ same => eq_of_forall₂ same

end

/-! ### Payloads -/

section
variable {β : Type} {blob : Bytes} {align unit count : Nat} {inner : Writer} {payload : Payload}
  {read : Reader β} (enough : ∀ content, inner 0 = some content → count ≤ content.length)

/-- What an embedded payload is: what its writer wrote, in its place in the blob. -/
structure Embeds (blob : Bytes) (inner : Writer) (payload : Payload) : Prop where
  written : inner 0 = some payload.bytes
  located : payload.Located blob

/-- The reader of an embedded payload: a length and that many bytes, left in place. -/
def Payload.sized : Reader Payload := do
  let length ← Reader.size
  Payload.reader length

def Payload.counted (count : Nat) : Reader Payload := do
  let length ← Reader.size
  Reader.require (count ≤ length)
  Payload.reader length

include enough in
theorem run_counted {len off : Nat} {written rest : Bytes}
    (wrote : Writer.embedded inner len = some written) (there : written ++ rest <+: blob.drop off) :
    ∃ payload, (Payload.counted count).run ⟨written ++ rest, off⟩ =
        some (payload, ⟨rest, off + written.length⟩) ∧
      Embeds blob inner payload ∧ payload.offset = off + 4 := by
  obtain ⟨content, wroteInner, wrote⟩ := bind_eq_some_iff.mp wrote
  obtain ⟨head, tail, wroteHead, wroteTail, rfl⟩ := Writer.all_cons wrote
  rw [Writer.all_singleton] at wroteTail
  cases wroteTail
  rw [append_assoc] at there ⊢
  obtain ⟨ran, four⟩ := run_size wroteHead
  have met : require (count ≤ content.length) = pure () :=
    if_pos (decide_eq_true (enough content wroteInner))
  refine ⟨⟨off + 4, content⟩, ?_, ⟨wroteInner, ?_⟩, rfl⟩
  · rw [Payload.counted, run_bind, ran]
    simp only [met, Payload.reader, offset, run_bind, run_pure, bind_some,
      take_append, length_append, four, Nat.add_assoc]
  · have behind := there.drop head.length
    rw [drop_left, drop_drop, four] at behind
    exact (prefix_append content rest).trans behind

include enough in
theorem reads_counted :
    Reads blob align (Writer.embedded inner) (Payload.counted count) (Embeds blob inner) := by
  intro len base written rest wrote _ there
  obtain ⟨payload, ran, embeds, -⟩ := run_counted enough wrote there
  exact ⟨payload, ran, embeds⟩

include enough in
theorem reads_aligned_counted (positive : 0 < unit) (divides : unit ∣ align) :
    Reads blob align (Writer.all [Writer.alignBytesPayloadTo unit, Writer.embedded inner])
      (Reader.alignBytesPayloadTo unit >>= fun _ => Payload.counted count)
      fun payload => Embeds blob inner payload ∧ unit ∣ payload.offset := by
  intro len base written rest wrote aligned there
  obtain ⟨pad, tail, wrotePad, wroteTail, rfl⟩ := Writer.all_cons wrote
  rw [Writer.all_singleton] at wroteTail
  rw [append_assoc] at there ⊢
  have padded : Reads blob align (Writer.alignBytesPayloadTo unit)
      (alignBytesPayloadTo unit) fun _ => True := reads_align_bytes_payload_to divides
  obtain ⟨_, ranPad, -⟩ := padded len base pad (tail ++ rest) wrotePad aligned there
  have behind : tail ++ rest <+: blob.drop (base + len + pad.length) := by
    have dropped := there.drop pad.length
    rwa [drop_left, drop_drop] at dropped
  obtain ⟨payload, ran, embeds, off⟩ := run_counted enough wroteTail behind
  refine ⟨payload, ?_, embeds, ?_⟩
  · rwa [run_bind, ranPad, length_append, ← Nat.add_assoc]
  · cases wrotePad
    have multiple := dvd_add_padding positive (len + 4)
    have rearranged : base + len + padding unit (len + 4) + 4 =
        base + (len + 4 + padding unit (len + 4)) := by omega
    rw [off, length_replicate, rearranged]
    exact Nat.dvd_add (divides.trans aligned) multiple

theorem whole_of_reads {property : β → Prop}
    (embeds : Embeds blob inner payload) (aligned : align ∣ payload.offset)
    (reads : Reads blob align inner read property) :
    ∃ val, read.whole payload.input = some val ∧ property val := by
  obtain ⟨val, ran, holds⟩ := reads 0 payload.offset payload.bytes [] embeds.written aligned
    (by rw [append_nil]; exact embeds.located)
  refine ⟨val, ?_, holds⟩
  rw [append_nil, Nat.add_zero] at ran
  rw [whole, Payload.input, ran]
  rfl

theorem whole_times {α : Type} {items : List α} {item : α → Writer} {related : α → β → Prop}
    (embeds : Embeds blob (Writer.all (items.map item)) payload) (aligned : align ∣ payload.offset)
    (reads : ∀ entry ∈ items, Reads blob align (item entry) read (related entry)) :
    ∃ vals, (Reader.times read items.length).whole payload.input = some vals ∧
      List.Forall₂ related items vals :=
  whole_of_reads embeds aligned (reads_times reads)

end
end Ladybone.Support.Codec
