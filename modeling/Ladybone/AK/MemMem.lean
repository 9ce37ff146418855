import Ladybone.Support.Matching
import Mathlib.Data.BitVec

/-!
# Searching for a needle

A failed `VERIFY` of an index is `none`. Sizes fit an `int`, and the `-1` of the table is `none`.
-/

namespace Ladybone.AK

open Support.Matching List

section
variable (needle : List UInt8)

/-! ## Short needles -/

def clearBit (mask : UInt8 → BitVec 32) (entry : UInt8 × Nat) : UInt8 → BitVec 32 :=
  Function.update mask entry.1 (mask entry.1 &&& ~~~(1#32 <<< entry.2))

def needleMask : UInt8 → BitVec 32 := needle.zipIdx.foldl clearBit fun _ => 0xffffffff#32

def bitapLoop (mask : UInt8 → BitVec 32) (needleLength : Nat) :
    List UInt8 → Nat → BitVec 32 → Option Nat
  | [], _, _ => none
  | octet :: rest, i, lookup =>
    let lookup := (lookup ||| mask octet) <<< 1
    if lookup &&& 1#32 <<< needleLength = 0 then some (i + 1 - needleLength)
    else bitapLoop mask needleLength rest (i + 1) lookup

def bitapBitwise (haystack : List UInt8) : Option Nat :=
  bitapLoop (needleMask needle) needle.length haystack 0 0xfffffffe#32

/-! ## Long needles -/

/-- One octet against the needle, at ever earlier positions until one agrees. -/
def advance (table : List (Option Nat)) (octet : UInt8) : Nat → Nat → Option Nat
  | 0, _ => none
  | fuel + 1, index => do
    if (← needle[index]?) = octet then some (index + 1)
    else
      match ← table[index]? with
      | none => some 0
      | some next => advance table octet fuel next

def tableEntry (table : List (Option Nat)) (octet : UInt8) (candidate : Nat) :
    Option (Option Nat) := do
  if (← needle[candidate]?) = octet then table[candidate]? else some (some candidate)

/-- Where the octets agree `candidate` is the next one, else the one after the `do` loop. -/
def fillTable : List UInt8 → List (Option Nat) → Nat → Option (List (Option Nat))
  | [], table, _ => some table
  | octet :: rest, table, candidate => do
    let table := table ++ [← tableEntry needle table octet candidate]
    fillTable rest table (← advance needle table octet (candidate + 1) candidate)

def prepareKmpPartialTable : Option (List (Option Nat)) :=
  match needle with
  | [] => none
  | _ :: rest => fillTable needle rest [none] 0

def searchChunks (table : List (Option Nat)) :
    List (List UInt8) → Nat → Nat → Option (Option Nat)
  | [], _, _ => some none
  | [] :: rest, total, index => searchChunks table rest total index
  | (octet :: chunk) :: rest, total, index => do
    let index ← advance needle table octet (index + 1) index
    if index = needle.length then some (some (total + 1 - index))
    else searchChunks table (chunk :: rest) (total + 1) index
termination_by chunks => (chunks.map fun chunk => chunk.length + 1).sum

def memmem (chunks : List (List UInt8)) : Option (Option Nat) := do
  searchChunks needle (← prepareKmpPartialTable needle) chunks 0 0

def memmemOptional (haystack : List UInt8) : Option (Option Nat) :=
  if needle.length = 0 then some (some 0)
  else if haystack.length < needle.length then some none
  else if haystack.length = needle.length then some (if haystack = needle then some 0 else none)
  else if needle.length < 32 then some (bitapBitwise needle haystack)
  else memmem needle [haystack]

end

variable {needle seen haystack : List UInt8} {octet : UInt8} {table : List (Option Nat)}
  {index candidate j : Nat}

/-! ## Bit-parallel search -/

theorem lsb_bit (inside : j < 32) (k : Nat) : (1#32 <<< k).getLsbD j = decide (j = k) := by
  grind

theorem lsb_clear_bits {entries : List (UInt8 × Nat)} {mask : UInt8 → BitVec 32} (inside : j < 32) :
    (entries.foldl clearBit mask octet).getLsbD j = false ↔
      (mask octet).getLsbD j = false ∨ (octet, j) ∈ entries := by
  induction entries generalizing mask with
  | nil => simp
  | cons entry rest ih =>
    have one : (clearBit mask entry octet).getLsbD j = false ↔
        (mask octet).getLsbD j = false ∨ (octet, j) = entry := by
      by_cases same : octet = entry.1
      · rw [clearBit, same, Function.update_self, BitVec.getLsbD_and, BitVec.getLsbD_not,
          lsb_bit inside]
        simp [inside, Prod.ext_iff, or_iff_not_imp_left]
      · simp [clearBit, same, Prod.ext_iff]
    rw [foldl_cons, ih, one, mem_cons, or_assoc]

theorem lsb_needle_mask (inside : j < 32) :
    (needleMask needle octet).getLsbD j = false ↔ needle[j]? = some octet := by
  have ones : ∀ j < 32, (0xffffffff#32).getLsbD j = true := by decide
  rw [needleMask, lsb_clear_bits inside, mk_mem_zipIdx_iff_getElem?, ones j inside]
  simp

/-- The bits of `lookup` that are clear belong to the prefixes of the needle that end the text. -/
def Tracks (needle seen : List UInt8) (lookup : BitVec 32) : Prop :=
  ∀ j ≤ needle.length, lookup.getLsbD j = false ↔ Ends needle seen j

theorem Tracks.step {lookup : BitVec 32} (short : needle.length < 32)
    (tracks : Tracks needle seen lookup) :
    Tracks needle (seen ++ [octet]) ((lookup ||| needleMask needle octet) <<< 1) := by
  rintro (- | j) inside
  · simp [ends_zero]
  · have inBits : j + 1 < 32 := Nat.lt_of_le_of_lt inside short
    rw [ends_concat_iff, ← tracks j (Nat.le_of_succ_le inside),
      ← lsb_needle_mask (Nat.lt_of_succ_lt inBits)]
    simp only [BitVec.getLsbD_shiftLeft, inBits]
    simp

theorem and_bit_eq_zero_iff {lookup : BitVec 32} (inside : j < 32) :
    lookup &&& 1#32 <<< j = 0 ↔ lookup.getLsbD j = false := by
  constructor
  · intro clear
    have bit := congrArg (BitVec.getLsbD · j) clear
    rw [BitVec.getLsbD_and, lsb_bit inside] at bit
    simpa using bit
  · intro clear
    rw [← BitVec.twoPow_eq, BitVec.and_twoPow, clear]
    rfl

theorem bitap_loop_first {lookup : BitVec 32} (short : needle.length < 32)
    (tracks : Tracks needle seen lookup) (unseen : FirstAt needle seen none) :
    FirstAt needle (seen ++ haystack)
      (bitapLoop (needleMask needle) needle.length haystack seen.length lookup) := by
  induction haystack generalizing seen lookup with
  | nil =>
    rwa [append_nil]
  | cons octet rest ih =>
    have next : Tracks needle (seen ++ [octet]) _ := tracks.step short
    have stops := (and_bit_eq_zero_iff short).trans ((next _ (Nat.le_refl _)).trans ends_length_iff)
    unfold bitapLoop
    dsimp only
    split_ifs with isClear
    · exact first_at_suffix unseen (stops.mp isClear)
    · have later := ih next (first_at_concat unseen fun isEnd => isClear (stops.mpr isEnd))
      rwa [length_append, append_assoc] at later

/-! ## The table -/

/-- A prefix of the needle that ends the first `index` octets and goes on differently. -/
def Resumes (needle : List UInt8) (index k : Nat) : Prop :=
  Ends needle (needle.take index) k ∧ needle[k]? ≠ needle[index]?

def Falls (shorter : Nat → Prop) : Option Nat → Prop
  | none => ∀ k, ¬shorter k
  | some next => IsGreatest {k | shorter k} next

def RightTable (needle : List UInt8) (table : List (Option Nat)) : Prop :=
  ∀ index entry, table[index]? = some entry → Falls (Resumes needle index) entry

theorem Resumes.lt {k : Nat} (resumes : Resumes needle index k) : k < index := by
  have le := resumes.1.le_length.trans (length_take_le _ _)
  refine Nat.lt_of_le_of_ne le ?_
  rintro rfl
  exact resumes.2 rfl

theorem advance_greatest (right : RightTable needle table) {fuel : Nat} (enough : index < fuel)
    (inside : index < needle.length) (filled : index < table.length) :
    ∃ next, advance needle table octet fuel index = some next ∧
      IsGreatest {k | Ends needle (needle.take index ++ [octet]) k} next := by
  induction fuel generalizing index with
  | zero => cases enough
  | succ fuel ih =>
    have octetHere := getElem?_eq_getElem inside
    have entryHere := getElem?_eq_getElem filled
    have falls := right index _ entryHere
    have le := Nat.le_of_lt inside
    simp only [advance, octetHere, entryHere, Option.bind_eq_bind, Option.bind_some]
    generalize table[index] = entry at falls
    split_ifs with same
    · rw [same] at octetHere
      refine ⟨index + 1, rfl, ends_concat_iff.mpr ⟨⟨le, suffix_rfl⟩, octetHere⟩, fun k ends => ?_⟩
      simpa [le] using ends.le_length
    · -- whatever the octet extends is listed
      have resumes : ∀ k, Ends needle (needle.take index) k → needle[k]? = some octet →
          Resumes needle index k := by
        intro k ends isNext
        refine ⟨ends, ?_⟩
        rw [isNext, octetHere, ne_eq, Option.some.injEq]
        exact Ne.symm same
      cases entry with
      | none =>
        refine ⟨0, rfl, ends_zero, ?_⟩
        rintro (- | k) ends
        · exact Nat.le_refl _
        · obtain ⟨ends, isNext⟩ := ends_concat_iff.mp ends
          exact absurd (resumes k ends isNext) (falls k)
      | some next =>
        have shorter := falls.1.lt
        obtain ⟨found, stepped, greatest⟩ := @ih next (by omega) (by omega) (by omega)
        exact ⟨found, stepped, greatest_concat falls.1.1
          (fun k ends isNext => falls.2 (resumes k ends isNext)) greatest⟩

theorem advance_tracks (octet : UInt8) (right : RightTable needle table)
    (inside : index < needle.length) (filled : index < table.length)
    (greatest : IsGreatest {k | Ends needle seen k} index) :
    ∃ next, advance needle table octet (index + 1) index = some next ∧
      IsGreatest {k | Ends needle (seen ++ [octet]) k} next := by
  obtain ⟨next, stepped, following⟩ := advance_greatest right (Nat.lt_succ_self _) inside filled
  exact ⟨next, stepped, greatest_concat greatest.1 (fun k ends _ => greatest.2 ends) following⟩

section
variable {first : UInt8} {rest : List UInt8}

theorem resumes_iff (split : needle = first :: seen ++ octet :: rest) {k : Nat} :
    Resumes needle (seen.length + 1) k ↔ Ends needle seen k ∧ needle[k]? ≠ some octet := by
  have octetHere : needle[seen.length + 1]? = some octet := by simp [split]
  have taken : needle.take (seen.length + 1) = first :: seen := by simp [split]
  rw [Resumes, octetHere, taken]
  refine and_congr_left fun differs => ⟨?_, fun ends => ⟨ends.1, ends.2.trans (suffix_cons _ _)⟩⟩
  rintro ⟨inside, ends⟩
  refine ⟨inside, (suffix_cons_iff.mp ends).resolve_left fun whole => differs ?_⟩
  have length := congrArg List.length whole
  rw [length_take_of_le inside, length_cons] at length
  rw [length, octetHere]

theorem table_entry_falls (split : needle = first :: seen ++ octet :: rest)
    (right : RightTable needle table) (inside : candidate < needle.length)
    (filled : candidate < table.length) (greatest : IsGreatest {k | Ends needle seen k} candidate) :
    ∃ entry, tableEntry needle table octet candidate = some entry ∧
      Falls (Resumes needle (seen.length + 1)) entry := by
  have octetHere := getElem?_eq_getElem inside
  have entryHere := getElem?_eq_getElem filled
  simp only [tableEntry, octetHere, Option.bind_eq_bind, Option.bind_some]
  split_ifs with same
  · -- the prefixes that go on differently are those of the candidate
    have resumes : Resumes needle (seen.length + 1) = Resumes needle candidate := by
      funext k
      refine propext ((resumes_iff split).trans ?_)
      rw [Resumes, octetHere, same]
      exact and_congr_left fun _ => ⟨fun ends => greatest.1.within ends (greatest.2 ends),
        greatest.1.trans⟩
    exact ⟨_, entryHere, resumes ▸ right candidate _ entryHere⟩
  · refine ⟨some candidate, rfl, (resumes_iff split).mpr ⟨greatest.1, ?_⟩, fun k resumes => ?_⟩
    · rwa [octetHere, ne_eq, Option.some.injEq]
    · exact greatest.2 ((resumes_iff split).mp resumes).1

theorem RightTable.concat (right : RightTable needle table) {entry : Option Nat}
    (falls : Falls (Resumes needle table.length) entry) :
    RightTable needle (table ++ [entry]) := by
  intro index found isFound
  rcases Nat.lt_or_ge index table.length with old | new
  · rw [getElem?_append_left old] at isFound
    exact right index found isFound
  · rw [getElem?_append_right new, getElem?_singleton] at isFound
    split_ifs at isFound with last
    cases isFound
    rwa [Nat.le_antisymm (Nat.le_of_sub_eq_zero last) new]

theorem fill_table_right (split : needle = first :: seen ++ rest) (right : RightTable needle table)
    (length : table.length = seen.length + 1)
    (greatest : IsGreatest {k | Ends needle seen k} candidate) :
    ∃ filled, fillTable needle rest table candidate = some filled ∧
      RightTable needle filled ∧ filled.length = needle.length := by
  induction rest generalizing seen table candidate with
  | nil => exact ⟨table, rfl, right, by simp [split, length]⟩
  | cons octet rest ih =>
    have upper := greatest.1.le_length
    have inside : candidate < needle.length := by
      rw [split, length_append, length_cons]
      omega
    obtain ⟨entry, made, falls⟩ := table_entry_falls split right inside (by omega) greatest
    have grown := right.concat (length ▸ falls)
    obtain ⟨next, stepped, following⟩ :=
      advance_tracks octet grown inside (by rw [length_append]; omega) greatest
    obtain ⟨filled, fills⟩ := ih (by simp [split]) grown (by simp [length]) following
    refine ⟨filled, ?_, fills.2⟩
    simp only [fillTable, made, stepped, Option.bind_eq_bind, Option.bind_some]
    exact fills.1

end

/-! ## Chunks -/

theorem search_chunks_first {chunks : List (List UInt8)} (right : RightTable needle table)
    (full : table.length = needle.length) (inside : index < needle.length)
    (greatest : IsGreatest {k | Ends needle seen k} index) (unseen : FirstAt needle seen none) :
    ∃ result, searchChunks needle table chunks seen.length index = some result ∧
      FirstAt needle (seen ++ chunks.flatten) result := by
  induction chunks generalizing seen index with
  | nil =>
    rw [searchChunks, flatten_nil, append_nil]
    exact ⟨none, rfl, unseen⟩
  | cons chunk rest later =>
    induction chunk generalizing seen index with
    | nil =>
      rw [searchChunks]
      exact later inside greatest unseen
    | cons octet chunk ih =>
      obtain ⟨next, stepped, following⟩ :=
        advance_tracks octet right inside (full ▸ inside) greatest
      rw [searchChunks]
      simp only [stepped, Option.bind_eq_bind, Option.bind_some]
      split_ifs with whole
      · refine ⟨_, rfl, ?_⟩
        rw [whole] at following ⊢
        exact first_at_suffix unseen (ends_length_iff.mp following.1)
      · have notEnd : ¬needle <:+ seen ++ [octet] := fun isEnd =>
          whole (Nat.le_antisymm following.1.1 (following.2 (ends_length_iff.mpr isEnd)))
        have shorter : next < needle.length := Nat.lt_of_le_of_ne following.1.1 whole
        obtain ⟨result, found, first⟩ := ih shorter following (first_at_concat unseen notEnd)
        rw [length_append] at found
        refine ⟨result, found, ?_⟩
        rwa [append_assoc] at first

theorem greatest_nil : IsGreatest {k | Ends needle [] k} 0 :=
  ⟨ends_zero, fun _ ends => ends.le_length⟩

theorem first_at_nil (given : needle ≠ []) : FirstAt needle [] none := by
  intro k occurs
  rw [drop_nil] at occurs
  exact given (eq_nil_of_prefix_nil occurs)

theorem kmp_table_right (given : needle ≠ []) :
    ∃ table, prepareKmpPartialTable needle = some table ∧ RightTable needle table ∧
      table.length = needle.length := by
  cases needle with
  | nil => exact absurd rfl given
  | cons first rest =>
    have start : RightTable (first :: rest) [none] := by
      intro index entry found
      cases index with
      | zero =>
        cases found
        exact fun k resumes => absurd resumes.lt (Nat.not_lt_zero k)
      | succ => cases found
    have split : first :: rest = first :: [] ++ rest := rfl
    exact fill_table_right split start rfl greatest_nil

theorem memmem_first (given : needle ≠ []) (chunks : List (List UInt8)) :
    ∃ result, memmem needle chunks = some result ∧ FirstAt needle chunks.flatten result := by
  obtain ⟨table, filled, right, full⟩ := kmp_table_right given
  rw [memmem, filled]
  exact search_chunks_first right full (length_pos_iff.mpr given) greatest_nil (first_at_nil given)

theorem kmp_table_lt (filled : prepareKmpPartialTable needle = some table) {k : Nat}
    (entry : some k ∈ table) : k < needle.length := by
  have given : needle ≠ [] := by
    rintro rfl
    cases filled
  obtain ⟨_, same, right, full⟩ := kmp_table_right given
  cases filled.symm.trans same
  obtain ⟨index, found⟩ := mem_iff_getElem?.mp entry
  have inside := (List.getElem?_eq_some_iff.mp found).1
  have before := (right index _ found).1.lt
  omega

theorem memmem_optional_first (needle haystack : List UInt8) :
    ∃ result, memmemOptional needle haystack = some result ∧ FirstAt needle haystack result := by
  unfold memmemOptional
  have fits : ∀ k, needle <+: haystack.drop k → needle.length ≤ haystack.length - k := by
    intro k occurs
    rw [← length_drop]
    exact occurs.length_le
  have given (filled : ¬needle.length = 0) : needle ≠ [] := mt length_eq_zero_iff.mpr filled
  split_ifs with empty tooLong same equal short
  · rw [length_eq_zero_iff.mp empty]
    exact ⟨some 0, rfl, nil_prefix, fun k before => absurd before (Nat.not_lt_zero k)⟩
  · refine ⟨none, rfl, fun k occurs => ?_⟩
    have := fits k occurs
    omega
  · rw [equal]
    exact ⟨some 0, rfl, prefix_rfl, fun k before => absurd before (Nat.not_lt_zero k)⟩
  · refine ⟨none, rfl, fun k occurs => equal ?_⟩
    have := fits k occurs
    obtain rfl : k = 0 := by omega
    exact (occurs.eq_of_length same.symm).symm
  · have start : Tracks needle [] 0xfffffffe#32 := by
      have bits : ∀ j < 32, (0xfffffffe#32).getLsbD j = false ↔ j = 0 := by decide
      intro j inside
      rw [bits j (by omega)]
      constructor
      · rintro rfl
        exact ends_zero
      · exact fun ends => Nat.le_zero.mp ends.le_length
    exact ⟨_, rfl, bitap_loop_first short start (first_at_nil (given empty))⟩
  · have found := memmem_first (given empty) [haystack]
    rwa [flatten_singleton] at found

/-- Both searches return the least offset or nothing, the chunked one unless the needle is
empty, and the table of a needle whose size fits an `int` holds `int`s. -/
theorem substring_search_exact_iff (needle : List UInt8) (chunks : List (List UInt8)) :
    (∃ result, memmemOptional needle chunks.flatten = some result ∧
      FirstAt needle chunks.flatten result) ∧
    ((∃ result, memmem needle chunks = some result ∧ FirstAt needle chunks.flatten result) ↔
      needle ≠ []) ∧
    (needle.length < 2 ^ 31 → ∀ table, prepareKmpPartialTable needle = some table →
      ∀ k, some k ∈ table → k < 2 ^ 31) := by
  refine ⟨memmem_optional_first needle chunks.flatten, ⟨?_, fun given => memmem_first given chunks⟩,
    fun fits table filled k entry => (kmp_table_lt filled entry).trans fits⟩
  rintro ⟨_, found, -⟩ rfl
  cases found

theorem needle_split_over_chunks :
    (∃ result, memmem [1, 2, 1, 1] [[1, 2], [1, 2], [1, 1]] = some result ∧
      FirstAt ([1, 2, 1, 1] : List UInt8) [1, 2, 1, 2, 1, 1] result) ∧
    ∀ table, prepareKmpPartialTable [1, 2, 1, 1] = some table →
      ∀ k, some k ∈ table → k < 2 ^ 31 :=
  have search := substring_search_exact_iff [1, 2, 1, 1] [[1, 2], [1, 2], [1, 1]]
  ⟨search.2.1.mpr (by decide), search.2.2 (by decide)⟩

theorem empty_needle_fails : memmemOptional [] [1] = some (some 0) ∧ memmem [] [[1]] = none :=
  ⟨rfl, rfl⟩

end Ladybone.AK
