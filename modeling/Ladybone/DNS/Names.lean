import Ladybone.DNS.Message

/-!
# Names as RFC 1035 reads them

`Reads octets offset labels` is the reading of section 4.1: length-prefixed labels of
at most 63 octets, ended by a zero octet or by a pointer to an earlier offset where
the reading goes on. `wireName` is the part of a name that stands at its own offset,
up to its terminator or pointer, as `DomainName::from_raw` delimits it; there a length
octet between 64 and 191 is one more label.
-/

namespace Ladybone.DNS

open List Option

inductive Reads (octets : Octets) : Nat → List Octets → Prop where
  | root {offset : Nat} (terminator : octets[offset]? = some 0) : Reads octets offset []
  | label {offset : Nat} {length : UInt8} {rest : List Octets}
      (start : octets[offset]? = some length) (positive : length ≠ 0)
      (short : length.toNat ≤ 63) (inside : offset + 1 + length.toNat ≤ octets.length)
      (continued : Reads octets (offset + 1 + length.toNat) rest) :
      Reads octets offset ((octets.drop (offset + 1)).take length.toNat :: rest)
  | pointer {offset : Nat} {high low : UInt8} {labels : List Octets}
      (first : octets[offset]? = some high) (marked : 192 ≤ high.toNat)
      (second : octets[offset + 1]? = some low)
      (earlier : (high.toNat - 192) * 256 + low.toNat < offset)
      (continued : Reads octets ((high.toNat - 192) * 256 + low.toNat) labels) :
      Reads octets offset labels

/-- `starts` are the offsets of the length octets, the last one that of the terminator
or of the pointer. -/
structure WireName where
  starts : List Nat
  labels : List Octets
  pointer : Option Nat
  stop : Nat
deriving DecidableEq

def WireName.prepend (offset : Nat) (label : Octets) (rest : WireName) : WireName :=
  { rest with starts := offset :: rest.starts, labels := label :: rest.labels }

def readWire (octets : Octets) : Nat → Nat → Option WireName
  | 0, _ => none
  | fuel + 1, offset =>
    match octets[offset]? with
    | none => none
    | some length =>
      if length = 0 then
        some { starts := [offset], labels := [], pointer := none, stop := offset + 1 }
      else if length &&& offsetMarkerMask = offsetMarkerMask then
        match octets[offset + 1]? with
        | none => none
        | some low =>
          some { starts := [offset], labels := [],
                 pointer := some (pointerOffset length low), stop := offset + 2 }
      else if offset + 1 + length.toNat ≤ octets.length then
        (readWire octets fuel (offset + 1 + length.toNat)).map
          (WireName.prepend offset ((octets.drop (offset + 1)).take length.toNat))
      else none

def wireName (octets : Octets) (offset : Nat) : Option WireName :=
  readWire octets (octets.length + 1) offset

/-! ## Length octets -/

theorem octet_cases (holds : UInt8 → Prop) (all : ∀ value : Fin 256, holds (UInt8.ofFin value))
    (octet : UInt8) : holds octet := by
  exact all octet.toFin

theorem marked_iff {len : UInt8} :
    len &&& offsetMarkerMask = offsetMarkerMask ↔ 192 ≤ len.toNat := by
  apply octet_cases fun len =>
    len &&& offsetMarkerMask = offsetMarkerMask ↔ 192 ≤ len.toNat
  decide +kernel

theorem pointer_offset_eq {high low : UInt8} (marked : 192 ≤ high.toNat) :
    pointerOffset high low = (high.toNat - 192) * 256 + low.toNat := by
  have unmarked : 192 ≤ high.toNat → (high &&& ~~~offsetMarkerMask).toNat = high.toNat - 192 := by
    apply octet_cases fun high => 192 ≤ high.toNat →
      (high &&& ~~~offsetMarkerMask).toNat = high.toNat - 192
    decide +kernel
  rw [pointerOffset, unmarked marked]

/-! ## The wire part of a name -/

inductive WireCase (octets : Octets) (fuel offset : Nat) : WireName → Prop where
  | root (terminator : octets[offset]? = some 0) :
      WireCase octets fuel offset
        { starts := [offset], labels := [], pointer := none, stop := offset + 1 }
  | pointer {high low : UInt8} (first : octets[offset]? = some high)
      (marked : 192 ≤ high.toNat) (second : octets[offset + 1]? = some low) :
      WireCase octets fuel offset
        { starts := [offset], labels := [],
          pointer := some ((high.toNat - 192) * 256 + low.toNat), stop := offset + 2 }
  | label {length : UInt8} {rest : WireName} (start : octets[offset]? = some length)
      (positive : length ≠ 0) (unmarked : length.toNat < 192)
      (inside : offset + 1 + length.toNat ≤ octets.length)
      (read : readWire octets fuel (offset + 1 + length.toNat) = some rest) :
      WireCase octets fuel offset
        (rest.prepend offset ((octets.drop (offset + 1)).take length.toNat))

variable {octets : Octets} {fuel off : Nat} {wire : WireName} {labels : List Octets}

theorem read_wire_cases (read : readWire octets (fuel + 1) off = some wire) :
    WireCase octets fuel off wire := by
  rw [readWire] at read
  split at read
  · cases read
  · rename_i len start
    split_ifs at read with zero marked inside
    · cases read
      exact .root (zero ▸ start)
    · have high := marked_iff.mp marked
      split at read
      · cases read
      · rename_i low second
        cases read
        rw [pointer_offset_eq high]
        exact .pointer start high second
    · obtain ⟨rest, readRest, rfl⟩ := map_eq_some_iff.mp read
      exact .label start zero (Nat.lt_of_not_le (mt marked_iff.mpr marked)) inside readRest

theorem WireCase.read (found : WireCase octets fuel off wire) :
    readWire octets (fuel + 1) off = some wire := by
  rw [readWire]
  cases found with
  | root terminator =>
    rw [terminator]
    rfl
  | @pointer high low first marked second =>
    have nonzero : high ≠ 0 := by
      intro zero
      rw [zero] at marked
      cases marked
    simp only [first, second, nonzero, marked_iff.mpr marked, if_true, if_false,
      pointer_offset_eq marked]
  | @label len _ start positive unmarked inside readRest =>
    have notMarked := mt marked_iff.mp (Nat.not_le_of_lt unmarked)
    simp only [start, positive, notMarked, inside, readRest, if_true, if_false, map_some]

section
variable (read : readWire octets fuel off = some wire) (reading : Reads octets off labels)

include read

theorem read_wire_more {more : Nat} (enough : fuel ≤ more) :
    readWire octets more off = some wire := by
  induction fuel generalizing more off wire with
  | zero => cases read
  | succ fuel ih =>
    cases more with
    | zero => exact absurd enough (Nat.not_succ_le_zero fuel)
    | succ =>
      rw [readWire] at read ⊢
      split at read
      · cases read
      · split_ifs at read ⊢ with zero marked inside
        · exact read
        · exact read
        · rcases map_eq_some_iff.mp read with ⟨rest, readRest, made⟩
          rw [ih readRest (Nat.le_of_succ_le_succ enough), map_some, made]

def extent (labels : List Octets) : Nat := (labels.map fun label => label.length + 1).sum

theorem offset_mem_starts : off ∈ wire.starts := by
  cases fuel with
  | zero => cases read
  | succ =>
    cases read_wire_cases read <;> simp [WireName.prepend]

theorem starts_inside : ∀ start ∈ wire.starts, off ≤ start ∧ start < wire.stop := by
  induction fuel generalizing off wire with
  | zero => cases read
  | succ _ ih =>
    cases read_wire_cases read with
    | root =>
      intro start mem
      rw [mem_singleton.mp mem]
      exact ⟨Nat.le_refl _, Nat.lt_succ_self _⟩
    | pointer =>
      intro start mem
      rw [mem_singleton.mp mem]
      exact ⟨Nat.le_refl _, Nat.lt_add_of_pos_right (by decide)⟩
    | @label _ _ _ _ _ _ readRest =>
      have next := ih readRest _ (offset_mem_starts readRest)
      intro start mem
      dsimp only [WireName.prepend] at mem ⊢
      rcases mem_cons.mp mem with isFirst | inRest
      · omega
      · have bounds := ih readRest start inRest
        omega

def Legal (octets : Octets) (wire : WireName) : Prop :=
  ∀ start ∈ wire.starts, ∀ length, octets[start]? = some length →
    length.toNat ≤ 63 ∨ 192 ≤ length.toNat

instance (octets : Octets) (wire : WireName) : Decidable (Legal octets wire) :=
  inferInstanceAs (Decidable (∀ start ∈ wire.starts, ∀ length ∈ octets[start]?,
    length.toNat ≤ 63 ∨ 192 ≤ length.toNat))

/-- The part behind a name's own octets is read as the rest of it. -/
def Continues (octets : Octets) (offset : Nat) (rest : List Octets) : Option Nat → Prop
  | none => rest = []
  | some target => target < offset ∧ Reads octets target rest

theorem reads_of_wire {rest : List Octets} (legal : Legal octets wire)
    (continues : Continues octets off rest wire.pointer) :
    Reads octets off (wire.labels ++ rest) := by
  induction fuel generalizing off wire with
  | zero => cases read
  | succ _ ih =>
    cases read_wire_cases read with
    | root terminator =>
      have nothing : rest = [] := continues
      rw [nothing]
      exact Reads.root terminator
    | pointer first marked second =>
      exact Reads.pointer first marked second continues.1 continues.2
    | @label len others begins positive _ inside readRest =>
      have octetLegal := legal off mem_cons_self len begins
      have restLegal : Legal octets others := fun start mem =>
        legal start (mem_cons_of_mem _ mem)
      have further : Continues octets (off + 1 + len.toNat) rest others.pointer := by
        dsimp only [WireName.prepend] at continues
        cases pointed : others.pointer with
        | none =>
          rwa [pointed] at continues
        | some =>
          rw [pointed] at continues
          exact ⟨by have := continues.1; omega, continues.2⟩
      exact Reads.label begins positive (by omega) inside (ih readRest restLegal further)

omit read in
include reading in
theorem Reads.of_root (terminator : octets[off]? = some 0) : labels = [] := by
  cases reading with
  | root => rfl
  | label start positive => exact absurd (some.inj (start.symm.trans terminator)) positive
  | pointer first marked =>
    cases first.symm.trans terminator
    cases marked

omit read in
include reading in
theorem Reads.of_pointer {high low : UInt8} (first : octets[off]? = some high)
    (marked : 192 ≤ high.toNat) (second : octets[off + 1]? = some low) :
    Reads octets ((high.toNat - 192) * 256 + low.toNat) labels := by
  cases reading with
  | root terminator =>
    cases first.symm.trans terminator
    cases marked
  | label start _ short =>
    cases first.symm.trans start
    omega
  | pointer first' _ second' _ continued =>
    cases first.symm.trans first'
    cases second.symm.trans second'
    exact continued

omit read in
theorem Reads.of_label {len : UInt8} (start : octets[off]? = some len) (positive : len ≠ 0)
    (unmarked : len.toNat < 192) (reading : Reads octets off labels) :
    len.toNat ≤ 63 ∧ ∃ rest, labels = (octets.drop (off + 1)).take len.toNat :: rest ∧
      Reads octets (off + 1 + len.toNat) rest := by
  cases reading with
  | root terminator => exact absurd (some.inj (start.symm.trans terminator)) positive
  | label start' _ short _ continued =>
    cases start.symm.trans start'
    exact ⟨short, _, rfl, continued⟩
  | pointer first marked =>
    cases start.symm.trans first
    omega

include reading in
theorem wire_of_reads :
    Legal octets wire ∧ ∃ rest, labels = wire.labels ++ rest ∧ match wire.pointer with
      | none => rest = []
      | some target => Reads octets target rest := by
  induction fuel generalizing off wire labels with
  | zero => cases read
  | succ _ ih =>
    cases read_wire_cases read with
    | root terminator =>
      refine ⟨?_, labels, rfl, reading.of_root terminator⟩
      intro start mem len found
      cases (mem_singleton.mp mem ▸ terminator).symm.trans found
      exact .inl (Nat.zero_le 63)
    | pointer first marked second =>
      refine ⟨?_, labels, rfl, reading.of_pointer first marked second⟩
      intro start mem len found
      cases (mem_singleton.mp mem ▸ first).symm.trans found
      exact .inr marked
    | label begins positive unmarked _ readRest =>
      obtain ⟨short, _, rfl, continued⟩ := reading.of_label begins positive unmarked
      obtain ⟨restLegal, rest, rfl, ends⟩ := ih readRest continued
      refine ⟨?_, rest, rfl, ends⟩
      intro start mem octet found
      rcases mem_cons.mp mem with rfl | inRest
      · cases begins.symm.trans found
        exact .inl short
      · exact restLegal start inRest octet found

omit read in
theorem reads_unique {others : List Octets} (one : Reads octets off labels)
    (other : Reads octets off others) : labels = others := by
  induction one generalizing others with
  | root terminator => exact (other.of_root terminator).symm
  | label start positive short _ _ ih =>
    obtain ⟨-, rest, rfl, continued⟩ := other.of_label start positive (by omega)
    rw [ih continued]
  | pointer first marked second _ _ ih => exact ih (other.of_pointer first marked second)

/-! ## Walking to a pointer's target -/

omit read in
theorem skip_labels_drop (count : Nat) (inside : count ≤ labels.length)
    (small : extent (labels.take count) < 2 ^ 64) :
    skipLabels labels (extent (labels.take count)) = (labels.drop count, 0) := by
  induction labels generalizing count with
  | nil =>
    rw [Nat.le_zero.mp inside]
    rfl
  | cons label rest ih =>
    cases count with
    | zero => rfl
    | succ count =>
      have here : extent ((label :: rest).take (count + 1)) =
          label.length + 1 + extent (rest.take count) := by
        simp [extent]
      rw [here] at small ⊢
      have wraps : (label.length + 1 + extent (rest.take count) + 2 ^ 64 -
          (label.length + 1)) % 2 ^ 64 = extent (rest.take count) := by
        omega
      rw [skipLabels, if_pos (by omega), wraps, ih count (Nat.le_of_succ_le_succ inside) (by omega)]
      rfl

include reading in
theorem reads_from_start {start : Nat} (mem : start ∈ wire.starts) :
    ∃ count ≤ labels.length, start = off + extent (labels.take count) ∧
      Reads octets start (labels.drop count) := by
  induction fuel generalizing off wire labels with
  | zero => cases read
  | succ _ ih =>
    by_cases isFirst : start = off
    · rw [isFirst]
      exact ⟨0, Nat.zero_le _, rfl, reading⟩
    · cases read_wire_cases read with
      | root | pointer =>
        exact absurd (mem_singleton.mp mem) isFirst
      | @label len others begins positive unmarked inside readRest =>
        have inRest : start ∈ others.starts :=
          (mem_cons.mp mem).resolve_left isFirst
        obtain ⟨-, _, rfl, continued⟩ := reading.of_label begins positive unmarked
        rcases ih readRest continued inRest with ⟨count, bounded, position, suffix⟩
        refine ⟨count + 1, Nat.succ_le_succ bounded, ?_, suffix⟩
        simp only [extent, take_succ_cons, map_cons, sum_cons, length_take,
          length_drop] at position ⊢
        omega

include reading in
theorem reads_labels_from {target : Nat} (mem : target ∈ wire.starts) (small : target < 2 ^ 64) :
    Reads octets target (labelsFrom labels (target - off)) := by
  rcases reads_from_start read reading mem with ⟨count, bounded, position, suffix⟩
  have distance : target - off = extent (labels.take count) := by omega
  rw [distance, labelsFrom, skip_labels_drop count bounded (by omega)]
  revert suffix
  cases labels.drop count <;> exact id

end
end Ladybone.DNS
