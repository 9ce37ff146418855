import Mathlib.Data.List.TakeWhile

/-!
# Chunks of an incrementally populated stream

The tree of chunks is the list of its values by ascending offset. Offsets and lengths are those of
a file, so their sums do not wrap.
-/

namespace Ladybone.Media

open List

structure Chunk where
  offset : Nat
  data : List UInt8
deriving DecidableEq

open Chunk

def Chunk.finish (chunk : Chunk) : Nat := chunk.offset + chunk.data.length

def Chunk.Contains (chunk : Chunk) (position : Nat) : Prop :=
  chunk.offset ≤ position ∧ position < chunk.finish

instance (chunk : Chunk) (position : Nat) : Decidable (chunk.Contains position) :=
  inferInstanceAs (Decidable (_ ∧ _))

def Ordered (chunks : List Chunk) : Prop :=
  chunks.Pairwise fun chunk other => chunk.offset < other.offset

/-! ## Lookup -/

section
variable (position : Nat) (chunks : List Chunk)

def notAbove : List Chunk :=
  chunks.takeWhile fun chunk => chunk.offset ≤ position

def above : List Chunk :=
  chunks.dropWhile fun chunk => chunk.offset ≤ position

def findLargestNotAbove : Option Chunk :=
  (notAbove position chunks).getLast?

theorem not_above_append_above : notAbove position chunks ++ above position chunks = chunks :=
  takeWhile_append_dropWhile

end

variable {position off length : Nat} {chunks : List Chunk} {chunk last : Chunk}
  {data : List UInt8} {file : Nat → UInt8} {added : Nat → Prop}

theorem offset_le_of_mem_not_above (mem : chunk ∈ notAbove position chunks) :
    chunk.offset ≤ position := by
  have taken := mem_takeWhile_imp mem
  exact of_decide_eq_true taken

theorem lt_offset_of_mem_above (order : Ordered chunks) (mem : chunk ∈ above position chunks) :
    position < chunk.offset := by
  have leftOrdered : Ordered (above position chunks) :=
    order.sublist (dropWhile_sublist _)
  cases isAbove : above position chunks with
  | nil =>
    rw [isAbove] at mem
    cases mem
  | cons first =>
    have firstAbove : position < first.offset := by
      have stopped := head?_dropWhile_not (fun chunk : Chunk => decide (chunk.offset ≤ position))
        chunks
      unfold above at isAbove
      rw [isAbove] at stopped
      simpa using stopped
    rw [isAbove] at mem leftOrdered
    rcases mem_cons.mp mem with isFirst | inRest
    · rwa [isFirst]
    · exact Nat.lt_trans firstAbove (rel_of_pairwise_cons leftOrdered inRest)

/-! ## Adding -/

/-- `resize` to the end of the data and `copy_to` there. -/
def Chunk.overwrite (chunk : Chunk) (offset : Nat) (data : List UInt8) : Chunk :=
  { chunk with data := chunk.data.take (offset - chunk.offset) ++ data }

/-- The chunk that was expanded, joined with the next one if they intersect. -/
def joinNext (chunk : Chunk) (behind : List Chunk) : List Chunk :=
  match behind with
  | [] => [chunk]
  | next :: rest =>
    if next.offset ≤ chunk.finish then chunk.overwrite next.offset next.data :: rest
    else chunk :: next :: rest

def addChunk (offset : Nat) (data : List UInt8) (chunks : List Chunk) : List Chunk :=
  match findLargestNotAbove offset chunks with
  | none => ⟨offset, data⟩ :: chunks
  | some previous =>
    if previous.finish < offset then
      notAbove offset chunks ++ ⟨offset, data⟩ :: above offset chunks
    else if offset + data.length ≤ previous.finish then chunks
    else
      (notAbove offset chunks).dropLast ++
        joinNext (previous.overwrite offset data) (above offset chunks)

inductive AddCase (offset : Nat) (data : List UInt8) (chunks : List Chunk) : List Chunk → Prop where
  | inserted (front back : List Chunk) (split : chunks = front ++ back)
      (isNotAbove : notAbove offset chunks = front) (isAbove : above offset chunks = back)
      (apart : ∀ previous, front.getLast? = some previous → previous.finish < offset) :
      AddCase offset data chunks (front ++ ⟨offset, data⟩ :: back)
  | covered (previous : Chunk) (member : previous ∈ chunks)
      (found : findLargestNotAbove offset chunks = some previous)
      (starts : previous.offset ≤ offset) (ends : offset + data.length ≤ previous.finish) :
      AddCase offset data chunks chunks
  | extended (front : List Chunk) (previous : Chunk) (back : List Chunk)
      (split : chunks = front ++ previous :: back)
      (found : findLargestNotAbove offset chunks = some previous)
      (isAbove : above offset chunks = back)
      (starts : previous.offset ≤ offset) (touches : offset ≤ previous.finish)
      (grows : previous.finish < offset + data.length)
      (apart : ∀ next, back.head? = some next →
        (previous.overwrite offset data).finish < next.offset) :
      AddCase offset data chunks (front ++ previous.overwrite offset data :: back)
  | joined (front : List Chunk) (previous next : Chunk) (back : List Chunk)
      (split : chunks = front ++ previous :: next :: back)
      (found : findLargestNotAbove offset chunks = some previous)
      (isAbove : above offset chunks = next :: back)
      (starts : previous.offset ≤ offset) (touches : offset ≤ previous.finish)
      (grows : previous.finish < offset + data.length)
      (reaches : next.offset ≤ (previous.overwrite offset data).finish) :
      AddCase offset data chunks
        (front ++ (previous.overwrite offset data).overwrite next.offset next.data :: back)

theorem add_chunk_case (off : Nat) (data : List UInt8) (chunks : List Chunk) :
    AddCase off data chunks (addChunk off data chunks) := by
  have split := not_above_append_above off chunks
  unfold addChunk
  cases found : findLargestNotAbove off chunks with
  | none =>
    have none : notAbove off chunks = [] := getLast?_eq_none_iff.mp found
    rw [none] at split
    exact .inserted [] chunks rfl none split nofun
  | some prev =>
    have lastIsPrevious : (notAbove off chunks).getLast? = some prev := found
    dsimp only
    split_ifs with before covered
    · refine .inserted _ _ split.symm rfl rfl fun other isLast => ?_
      rw [lastIsPrevious, Option.some.injEq] at isLast
      exact isLast ▸ before
    · have inFront := mem_of_getLast? lastIsPrevious
      refine .covered prev ?_ found (offset_le_of_mem_not_above inFront) covered
      rw [← split]
      exact mem_append_left _ inFront
    · have inFront := mem_of_getLast? lastIsPrevious
      have starts := offset_le_of_mem_not_above inFront
      have touches := Nat.le_of_not_lt before
      have grows := Nat.lt_of_not_le covered
      obtain ⟨front, isFront⟩ := getLast?_eq_some_iff.mp lastIsPrevious
      rw [isFront, append_assoc] at split
      rw [isFront, dropLast_concat]
      unfold joinNext
      split
      · rename_i isAbove
        rw [isAbove] at split
        exact .extended _ prev [] split.symm found isAbove starts touches grows nofun
      · rename_i next rest isAbove
        rw [isAbove] at split
        split_ifs with reaches
        · exact .joined _ prev next rest split.symm found isAbove starts touches grows reaches
        · refine .extended _ prev (next :: rest) split.symm found isAbove starts touches grows ?_
          rintro other ⟨⟩
          exact Nat.lt_of_not_le reaches

theorem ordered_of_offsets {others : List Chunk} (order : Ordered chunks)
    (offsets : (others.map Chunk.offset).Sublist (chunks.map Chunk.offset)) : Ordered others :=
  pairwise_map.mp ((pairwise_map.mpr order).sublist offsets)

theorem offset_le_last (order : Ordered chunks) (isLast : chunks.getLast? = some last)
    (mem : chunk ∈ chunks) : chunk.offset ≤ last.offset := by
  obtain ⟨front, rfl⟩ := getLast?_eq_some_iff.mp isLast
  rcases mem_append.mp mem with before | isChunk
  · exact Nat.le_of_lt ((pairwise_append.mp order).2.2 chunk before last mem_cons_self)
  · rw [mem_singleton.mp isChunk]

theorem ordered_add_chunk (order : Ordered chunks) : Ordered (addChunk off data chunks) := by
  have cases_ := add_chunk_case off data chunks
  generalize addChunk off data chunks = result at cases_ ⊢
  cases cases_ with
  | inserted front back split _ isAbove apart =>
    have behind : ∀ chunk ∈ back, off < chunk.offset := by
      intro chunk mem
      rw [← isAbove] at mem
      exact lt_offset_of_mem_above order mem
    rw [split] at order
    obtain ⟨frontOrdered, backOrdered, across⟩ := pairwise_append.mp order
    refine pairwise_append.mpr ⟨frontOrdered, pairwise_cons.mpr ⟨behind, backOrdered⟩, ?_⟩
    intro chunk mem other inNew
    rcases mem_cons.mp inNew with isNew | inBack
    · cases isLast : front.getLast? with
      | none =>
        rw [getLast?_eq_none_iff.mp isLast] at mem
        cases mem
      | some last =>
        have lastBefore : last.offset < off :=
          Nat.lt_of_le_of_lt (Nat.le_add_right _ _) (apart last isLast)
        rw [isNew]
        exact Nat.lt_of_le_of_lt (offset_le_last frontOrdered isLast mem) lastBefore
    · exact across chunk mem other inBack
  | covered => exact order
  | extended _ _ _ split =>
    refine ordered_of_offsets order ?_
    rw [split, map_append, map_append]
    exact List.Sublist.refl _
  | joined _ _ _ _ split =>
    refine ordered_of_offsets order ?_
    rw [split, map_append, map_append]
    exact (List.Sublist.refl _).append ((sublist_cons_self _ _).cons_cons _)

/-! ## What is stored of a file -/

def slice (file : Nat → UInt8) (start length : Nat) : List UInt8 :=
  (List.range' start length).map file

theorem slice_append {start first second : Nat} :
    slice file start first ++ slice file (start + first) second =
      slice file start (first + second) := by
  unfold slice
  rw [← map_append, List.range'_append_1]

def Chunk.Agrees (file : Nat → UInt8) (chunk : Chunk) : Prop :=
  chunk.data = slice file chunk.offset chunk.data.length

/-- The chunks are disjoint and not adjacent, hold the bytes of the file, and cover exactly the
positions that were added. -/
structure WellStored (file : Nat → UInt8) (added : Nat → Prop) (chunks : List Chunk) : Prop where
  separated : chunks.Pairwise fun chunk other => chunk.finish < other.offset
  nonempty : ∀ chunk ∈ chunks, chunk.data ≠ []
  agrees : ∀ chunk ∈ chunks, chunk.Agrees file
  covers : ∀ position, (∃ chunk ∈ chunks, chunk.Contains position) ↔ added position

theorem well_stored_nil : WellStored file (fun _ => False) [] where
  separated := List.Pairwise.nil
  nonempty _ mem := (not_mem_nil mem).elim
  agrees _ mem := (not_mem_nil mem).elim
  covers _ := ⟨fun ⟨_, mem, _⟩ => (not_mem_nil mem).elim, False.elim⟩

def AddedWith (added : Nat → Prop) (offset length : Nat) (position : Nat) : Prop :=
  added position ∨ offset ≤ position ∧ position < offset + length

section
variable {file : Nat → UInt8} {chunk : Chunk} {off : Nat} {data : List UInt8}

theorem offset_overwrite : (chunk.overwrite off data).offset = chunk.offset := rfl

theorem finish_overwrite (starts : chunk.offset ≤ off) (touches : off ≤ chunk.finish) :
    (chunk.overwrite off data).finish = off + data.length := by
  unfold finish at touches ⊢
  unfold overwrite
  rw [length_append, length_take]
  dsimp only
  omega

theorem agrees_overwrite (starts : chunk.offset ≤ off) (touches : off ≤ chunk.finish)
    (agrees : chunk.Agrees file) (dataAgrees : data = slice file off data.length) :
    (chunk.overwrite off data).Agrees file := by
  have within : off - chunk.offset ≤ chunk.data.length := by
    unfold finish at touches
    omega
  have kept : chunk.data.take (off - chunk.offset) =
      slice file chunk.offset (off - chunk.offset) := by
    obtain ⟨rest, length⟩ := Nat.exists_eq_add_of_le within
    rw [agrees, length, ← slice_append]
    exact take_left' (by simp [slice])
  have place : chunk.offset + (off - chunk.offset) = off := by omega
  have joined : chunk.data.take (off - chunk.offset) ++ data =
      slice file chunk.offset (off - chunk.offset + data.length) := by
    rw [← slice_append, place, ← dataAgrees, kept]
  unfold Chunk.Agrees overwrite
  dsimp only
  rw [joined]
  congr 1
  simp [slice]

end

theorem well_stored_replace {front middle back : List Chunk}
    (stored : WellStored file added (front ++ middle ++ back)) (nonempty : chunk.data ≠ [])
    (agrees : chunk.Agrees file) (before : ∀ other ∈ front, other.finish < chunk.offset)
    (behind : ∀ other ∈ back, chunk.finish < other.offset)
    (contains : ∀ pos, chunk.Contains pos ↔ (∃ other ∈ middle, other.Contains pos) ∨
        off ≤ pos ∧ pos < off + length) :
    WellStored file (AddedWith added off length) (front ++ chunk :: back) := by
  have frontBack : front.Sublist (front ++ middle ++ back) :=
    (sublist_append_left front middle).trans (sublist_append_left _ back)
  have ofOld : ∀ {P : Chunk → Prop}, P chunk → (∀ other ∈ front ++ middle ++ back, P other) →
      ∀ other ∈ front ++ chunk :: back, P other := by
    intro P isNew isOld
    obtain ⟨inFront, inBack⟩ := forall_mem_append.mp isOld
    exact forall_mem_append.mpr ⟨fun other mem => inFront other
      (mem_append_left _ mem), forall_mem_cons.mpr ⟨isNew, inBack⟩⟩
  refine ⟨?_, ofOld nonempty stored.nonempty, ofOld agrees stored.agrees, ?_⟩
  · obtain ⟨frontSeparated, backSeparated, across⟩ := pairwise_append.mp stored.separated
    refine pairwise_append.mpr ⟨stored.separated.sublist frontBack,
      pairwise_cons.mpr ⟨behind, backSeparated⟩, ?_⟩
    intro other inFront
    exact forall_mem_cons.mpr ⟨before other inFront, across other (mem_append_left _ inFront)⟩
  · intro pos
    unfold AddedWith
    rw [← stored.covers pos]
    constructor
    · rintro ⟨other, mem, holds⟩
      rcases mem_append.mp mem with inFront | inNew
      · exact .inl ⟨other, by simp [inFront], holds⟩
      · rcases mem_cons.mp inNew with rfl | inBack
        · rcases (contains pos).mp holds with ⟨old, inMiddle, holds⟩ | isNew
          · exact .inl ⟨old, by simp [inMiddle], holds⟩
          · exact .inr isNew
        · exact .inl ⟨other, by simp [inBack], holds⟩
    · rintro (⟨other, mem, holds⟩ | isNew)
      · simp only [mem_append] at mem
        rcases mem with (inFront | inMiddle) | inBack
        · exact ⟨other, by simp [inFront], holds⟩
        · exact ⟨chunk, by simp, (contains pos).mpr (.inl ⟨other, inMiddle, holds⟩)⟩
        · exact ⟨other, by simp [inBack], holds⟩
      · exact ⟨chunk, by simp, (contains pos).mpr (.inr isNew)⟩

/-! ## When adding is right -/

/-- If the data reaches the next stored chunk, a chunk reaches its offset and the next one holds
its end. -/
def Fits (offset length : Nat) (chunks : List Chunk) : Prop :=
  ∀ next, (above offset chunks).head? = some next → next.offset ≤ offset + length →
    (∃ previous, findLargestNotAbove offset chunks = some previous ∧ offset ≤ previous.finish) ∧
      offset + length ≤ next.finish

theorem ordered_of_well_stored (stored : WellStored file added chunks) : Ordered chunks :=
  stored.separated.imp fun separated => Nat.lt_of_le_of_lt (Nat.le_add_right _ _) separated

theorem finish_le_last (separated : chunks.Pairwise fun chunk other => chunk.finish < other.offset)
    (isLast : chunks.getLast? = some last) (mem : chunk ∈ chunks) :
    chunk.finish ≤ last.finish := by
  obtain ⟨front, rfl⟩ := getLast?_eq_some_iff.mp isLast
  rcases mem_append.mp mem with before | isChunk
  · have apart := (pairwise_append.mp separated).2.2 chunk before last mem_cons_self
    exact Nat.le_trans (Nat.le_of_lt apart) (Nat.le_add_right _ _)
  · rw [mem_singleton.mp isChunk]

theorem lt_offset_of_lt_head {bound : Nat} (order : Ordered chunks)
    (first : ∀ next, chunks.head? = some next → bound < next.offset) :
    ∀ chunk ∈ chunks, bound < chunk.offset := by
  cases chunks with
  | nil =>
    intro chunk mem
    cases mem
  | cons next =>
    exact forall_mem_cons.mpr
      ⟨first next rfl,
       fun _ inRest => Nat.lt_trans (first next rfl) (rel_of_pairwise_cons order inRest)⟩

theorem well_stored_add_chunk (stored : WellStored file added chunks) (given : data ≠ [])
    (dataAgrees : data = slice file off data.length) (fits : Fits off data.length chunks) :
    WellStored file (AddedWith added off data.length) (addChunk off data chunks) := by
  have order := ordered_of_well_stored stored
  have backOrdered : Ordered (above off chunks) := order.sublist (dropWhile_sublist _)
  have cases_ := add_chunk_case off data chunks
  generalize addChunk off data chunks = result at cases_ ⊢
  cases cases_ with
  | inserted front back split isNotAbove isAbove apart =>
    have reached : WellStored file added (front ++ [] ++ back) := by
      rwa [append_nil, ← split]
    refine well_stored_replace reached given dataAgrees ?_ ?_ ?_
    · intro other inFront
      cases isLast : front.getLast? with
      | none =>
        rw [getLast?_eq_none_iff.mp isLast] at inFront
        cases inFront
      | some last =>
        have frontSeparated := (pairwise_append.mp (split ▸ stored.separated)).1
        exact Nat.lt_of_le_of_lt (finish_le_last frontSeparated isLast inFront) (apart last isLast)
    · rw [← isAbove]
      refine lt_offset_of_lt_head backOrdered fun next isNext => Nat.lt_of_not_le fun reaches => ?_
      -- nothing in front reaches the offset
      obtain ⟨⟨prev, found, touches⟩, -⟩ := fits next isNext reaches
      have isLast : front.getLast? = some prev := isNotAbove ▸ found
      exact absurd touches (Nat.not_le_of_lt (apart prev isLast))
    · intro pos
      simp [Chunk.Contains, finish]
  | covered prev mem _ starts ends =>
    refine { stored with covers := fun pos => ?_ }
    rw [stored.covers pos]
    constructor
    · exact .inl
    · rintro (before | ⟨notBefore, inside⟩)
      · exact before
      · refine (stored.covers pos).mp ⟨prev, mem, ?_, ?_⟩
        · exact Nat.le_trans starts notBefore
        · exact Nat.lt_of_lt_of_le inside ends
  | extended front prev back split _ isAbove starts touches _ apart =>
    have reached : WellStored file added (front ++ [prev] ++ back) := by
      rwa [append_assoc, singleton_append, ← split]
    have isPrevious : prev ∈ chunks := by
      rw [split]
      simp
    refine well_stored_replace reached ?_ ?_ ?_ ?_ ?_
    · simp [overwrite, given]
    · exact agrees_overwrite starts touches (stored.agrees prev isPrevious) dataAgrees
    · intro other inFront
      have across := (pairwise_append.mp (split ▸ stored.separated)).2.2
      exact across other inFront prev mem_cons_self
    · rw [← isAbove] at apart ⊢
      exact lt_offset_of_lt_head backOrdered apart
    · intro pos
      simp only [mem_singleton, exists_eq_left, Chunk.Contains,
        finish_overwrite starts touches, offset_overwrite]
      omega
  | joined front prev next back split _ isAbove starts touches _ reaches =>
    have reached : WellStored file added (front ++ [prev, next] ++ back) := by
      rwa [append_assoc, cons_append, singleton_append, ← split]
    have isPrevious : prev ∈ chunks := by simp [split]
    have isNext : next ∈ chunks := by simp [split]
    have holdsEnd : off + data.length ≤ next.finish := by
      rw [finish_overwrite starts touches] at reaches
      exact (fits next (by rw [isAbove]; rfl) reaches).2
    have behindPrevious : prev.offset ≤ next.offset := by
      have separated := stored.separated
      rw [split] at separated
      have apart := rel_of_pairwise_cons (pairwise_append.mp separated).2.1
        (mem_cons_self (a := next) (l := back))
      exact Nat.le_trans (Nat.le_add_right _ _) (Nat.le_of_lt apart)
    have startsAgain : (prev.overwrite off data).offset ≤ next.offset := behindPrevious
    refine well_stored_replace reached ?_ ?_ ?_ ?_ ?_
    · simp [overwrite, stored.nonempty next isNext]
    · exact agrees_overwrite startsAgain reaches
        (agrees_overwrite starts touches (stored.agrees prev isPrevious) dataAgrees)
        (stored.agrees next isNext)
    · intro other inFront
      have across := (pairwise_append.mp (split ▸ stored.separated)).2.2
      exact across other inFront prev mem_cons_self
    · intro other inBack
      rw [finish_overwrite startsAgain reaches]
      have across := (pairwise_append.mp reached.separated).2.2
      exact across next (by simp) other inBack
    · intro pos
      rw [finish_overwrite starts touches] at reaches
      simp only [mem_cons, not_mem_nil, or_false, exists_eq_or_imp, exists_eq_left,
        Chunk.Contains, finish_overwrite startsAgain (by rwa [finish_overwrite starts touches]),
        offset_overwrite]
      unfold finish at *
      omega

theorem fits_of_well_stored_add_chunk (stored : WellStored file added chunks)
    (after : WellStored file (AddedWith added off data.length) (addChunk off data chunks)) :
    Fits off data.length chunks := by
  have order := ordered_of_well_stored stored
  intro next isNext reaches
  have nextAbove : next ∈ above off chunks := mem_of_mem_head? isNext
  have behind : off < next.offset := lt_offset_of_mem_above order nextAbove
  have cases_ := add_chunk_case off data chunks
  generalize addChunk off data chunks = result at cases_ after
  cases cases_ with
  | inserted _ _ _ _ isAbove =>
    rw [isAbove] at nextAbove
    have separated := (pairwise_append.mp after.separated).2.1
    exact absurd reaches (Nat.not_le_of_lt (rel_of_pairwise_cons separated nextAbove))
  | covered prev _ found _ ends =>
    have separated := stored.separated
    rw [← not_above_append_above off chunks] at separated
    have apart := (pairwise_append.mp separated).2.2 prev (mem_of_getLast? found) next nextAbove
    exact absurd (Nat.le_trans reaches ends) (Nat.not_le_of_lt apart)
  | extended _ _ _ _ _ isAbove starts touches _ apart =>
    have farther := apart next (isAbove ▸ isNext)
    rw [finish_overwrite starts touches] at farther
    exact absurd reaches (Nat.not_le_of_lt farther)
  | joined _ prev other _ split found isAbove starts touches _ reached =>
    rw [isAbove, head?_cons, Option.some.injEq] at isNext
    subst isNext
    refine ⟨⟨prev, found, touches⟩, Nat.le_of_not_lt fun early => ?_⟩
    -- the byte behind the next chunk is cut off
    have lost : AddedWith added off data.length other.finish := by
      refine .inr ⟨?_, early⟩
      exact Nat.le_trans (Nat.le_of_lt behind) (Nat.le_add_right _ _)
    obtain ⟨holder, mem, fromHere, toHere⟩ := (after.covers other.finish).mpr lost
    have separated := stored.separated
    rw [split] at separated
    obtain ⟨-, rest, across⟩ := pairwise_append.mp separated
    have nextBack := (pairwise_cons.mp rest).2
    rcases mem_append.mp mem with inFront | inNew
    · have apart := across holder inFront other (by simp)
      unfold finish at *
      omega
    · rcases mem_cons.mp inNew with rfl | inBack
      · have startsAgain : (prev.overwrite off data).offset ≤ other.offset :=
          Nat.le_trans starts (Nat.le_of_lt behind)
        rw [finish_overwrite startsAgain reached] at toHere
        exact absurd toHere (Nat.lt_irrefl _)
      · have apart := rel_of_pairwise_cons nextBack inBack
        exact absurd fromHere (Nat.not_le_of_lt apart)

end Ladybone.Media
