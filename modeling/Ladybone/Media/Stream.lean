import Ladybone.Media.Chunks
import Ladybone.Support.Runs
import Mathlib.Algebra.GroupWithZero.Nat

/-!
# Incrementally populated streams

The state of an `IncrementallyPopulatedStream` and its calls under the lock. A read that has to
wait is tried again when the state has changed. Which cursors are active is part of a read.
-/

namespace Ladybone.Media

open Support.Runs List

structure Stream where
  chunks : List Chunk
  ordered : Ordered chunks
  expectedSize : Option Nat
  closed : Bool
  sized : closed = true → expectedSize.isSome = true
  (currentlyRequestedPosition lastChunkEnd : Nat)

def Stream.empty : Stream where
  chunks := []
  ordered := List.Pairwise.nil
  expectedSize := none
  closed := false
  sized := nofun
  currentlyRequestedPosition := 0
  lastChunkEnd := 0

def forwardRequestThreshold : Nat := 1048576

structure Read where
  (position length : Nat)
  aborted : Bool
  activePositions : List Nat

inductive Outcome where
  | data (bytes : List UInt8)
  | aborted
  | endOfStream
  | blocked
  | failed
deriving DecidableEq

inductive Action where
  | addChunkAt (offset : Nat) (data : List UInt8)
  | close
  | setExpectedSize (size : Nat)
  | readAt (read : Read)

namespace Stream

/-- `begin_new_request_while_locked`, without the callback -/
def beginNewRequest (stream : Stream) (position : Nat) : Stream :=
  if position = stream.currentlyRequestedPosition then stream
  else { stream with currentlyRequestedPosition := position, lastChunkEnd := position }

/-- The position `add_chunk_at` requests: behind a chunk that the data ends in. -/
def requestAfterAdd (offset : Nat) (data : List UInt8) (chunks : List Chunk) : Option Nat :=
  match findLargestNotAbove offset chunks with
  | none => none
  | some previous =>
    if previous.finish < offset then none
    else if offset + data.length ≤ previous.finish then some previous.finish
    else
      match above offset chunks with
      | [] => none
      | next :: _ =>
        let expanded := previous.overwrite offset data
        if next.offset ≤ expanded.finish then
          some (expanded.overwrite next.offset next.data).finish
        else none

def addChunkAt (stream : Stream) (offset : Nat) (data : List UInt8) : Option Stream :=
  if data = [] then none
  else
    let added : Stream :=
      { stream with
        chunks := addChunk offset data stream.chunks
        ordered := ordered_add_chunk stream.ordered
        lastChunkEnd := offset + data.length }
    match requestAfterAdd offset data stream.chunks with
    | some position => some (added.beginNewRequest position)
    | none => some added

def close (stream : Stream) : Stream :=
  { stream with expectedSize := some stream.lastChunkEnd, closed := true, sized := fun _ => rfl }

def setExpectedSize (stream : Stream) (size : Nat) : Stream :=
  { stream with expectedSize := some size, sized := fun _ => rfl }

/-! ## Reading -/

section
variable (stream : Stream)

def size : Nat := stream.expectedSize.getD 0

def nextPotential (potential other : Nat) : Nat :=
  if other < potential then
    match findLargestNotAbove other stream.chunks with
    | some chunk => if other ≤ chunk.finish then chunk.finish else other
    | none => other
  else potential

def potentialRequestPosition (read : Read) (chunk : Chunk) : Nat :=
  read.activePositions.foldl stream.nextPotential (max chunk.finish read.position)

def requestIfNeeded (read : Read) (chunk : Chunk) : Stream :=
  let potential := stream.potentialRequestPosition read chunk
  if potential < stream.currentlyRequestedPosition ∨
      stream.lastChunkEnd + forwardRequestThreshold < potential then
    stream.beginNewRequest potential
  else stream

def neededEnd (read : Read) : Nat :=
  if stream.closed ∧ stream.size < read.position + read.length then stream.size
  else read.position + read.length

def checkIfDataIsAvailable (read : Read) : Bool × Stream :=
  match findLargestNotAbove read.position stream.chunks with
  | none => (stream.closed, stream)
  | some chunk =>
    (decide (stream.neededEnd read ≤ chunk.finish), stream.requestIfNeeded read chunk)

def readFromChunks (position length : Nat) : Outcome :=
  match findLargestNotAbove position stream.chunks with
  | none => .failed
  | some chunk =>
    if chunk.finish < position + length then
      if stream.expectedSize = some chunk.finish ∧ position ≤ chunk.finish then
        .data ((chunk.data.drop (position - chunk.offset)).take (chunk.finish - position))
      else .failed
    else .data ((chunk.data.drop (position - chunk.offset)).take length)

def readAvailable (read : Read) : Outcome :=
  if stream.closed ∧ stream.size ≤ read.position then .endOfStream
  else if read.length = 0 then .data []
  else stream.readFromChunks read.position read.length

def readAt (read : Read) : Outcome × Stream :=
  if read.aborted then (.aborted, stream)
  else
    let (available, next) := stream.checkIfDataIsAvailable read
    if available then (next.readAvailable read, next) else (.blocked, next)

def step : Action → Option Stream
  | .addChunkAt offset data => stream.addChunkAt offset data
  | .close => some stream.close
  | .setExpectedSize size => some (stream.setExpectedSize size)
  | .readAt read => some (stream.readAt read).2

end
end Stream

/-! ## Reads of a closed stream -/

def Covered (chunks : List Chunk) (position : Nat) : Prop :=
  ∃ chunk ∈ chunks, chunk.Contains position

/-- The read ends, with an error or with the bytes of the file as far as the request is covered. -/
def ReadsRight (file : Nat → UInt8) (chunks : List Chunk) (read : Read) : Outcome → Prop
  | .data bytes =>
    bytes = slice file read.position bytes.length ∧ bytes.length ≤ read.length ∧
      (∀ position, read.position ≤ position → position < read.position + bytes.length →
        Covered chunks position) ∧
      (bytes.length < read.length → ¬ Covered chunks (read.position + bytes.length))
  | .aborted => True
  | .endOfStream => True
  | .blocked => False
  | .failed => False

/-- The chunk the read starts in reaches what the size requires; and if it does not reach the end
of the request, it ends just at the size. -/
def ReadFits (stream : Stream) (read : Read) : Prop :=
  read.aborted = true ∨ match findLargestNotAbove read.position stream.chunks with
    | none => stream.size ≤ read.position ∨ read.length = 0
    | some chunk =>
      min (read.position + read.length) stream.size ≤ chunk.finish ∧
        (stream.size ≤ read.position ∨ read.length = 0 ∨
          read.position + read.length ≤ chunk.finish ∨ chunk.finish = stream.size)

section
variable {file : Nat → UInt8} {added : Nat → Prop} {stream : Stream} {read : Read} {chunk : Chunk}
  (stored : WellStored file added stream.chunks)

theorem slice_chunk (agrees : chunk.Agrees file) {pos len : Nat}
    (starts : chunk.offset ≤ pos) (ends : pos + len ≤ chunk.finish) :
    (chunk.data.drop (pos - chunk.offset)).take len = slice file pos len := by
  have parts : chunk.data.length = pos - chunk.offset + (len + (chunk.finish - (pos + len))) := by
    unfold Chunk.finish at ends ⊢
    omega
  have place : chunk.offset + (pos - chunk.offset) = pos := by omega
  rw [agrees, parts, ← slice_append, place, ← slice_append]
  rw [drop_left' (by simp [slice]), take_left' (by simp [slice])]

include stored in
theorem not_covered_finish {pos : Nat}
    (found : findLargestNotAbove pos stream.chunks = some chunk) :
    ¬ Covered stream.chunks chunk.finish := by
  rintro ⟨other, mem, fromHere, toHere⟩
  rw [← not_above_append_above pos stream.chunks] at mem
  have separated := stored.separated
  rw [← not_above_append_above pos stream.chunks] at separated
  rcases mem_append.mp mem with before | behind
  · exact absurd toHere (Nat.not_lt_of_le
      (finish_le_last (pairwise_append.mp separated).1 found before))
  · have apart := (pairwise_append.mp separated).2.2 chunk (mem_of_getLast? found) other behind
    exact absurd fromHere (Nat.not_le_of_lt apart)

include stored in
theorem reads_right_of_chunk (found : findLargestNotAbove read.position stream.chunks = some chunk)
    {len : Nat} (ends : read.position + len ≤ chunk.finish) (within : len ≤ read.length)
    (most : len < read.length → read.position + len = chunk.finish) :
    ReadsRight file stream.chunks read
      (.data ((chunk.data.drop (read.position - chunk.offset)).take len)) := by
  have inFront := mem_of_getLast? found
  have starts := offset_le_of_mem_not_above inFront
  have mem : chunk ∈ stream.chunks := by
    rw [← not_above_append_above read.position stream.chunks]
    exact mem_append_left _ inFront
  unfold ReadsRight
  dsimp only
  rw [slice_chunk (stored.agrees chunk mem) starts ends, slice, length_map, length_range']
  refine ⟨rfl, within, ?_, ?_⟩
  · intro pos fromHere toHere
    exact ⟨chunk, mem, Nat.le_trans starts fromHere, Nat.lt_of_lt_of_le toHere ends⟩
  · intro short
    rw [most short]
    exact not_covered_finish stored found

theorem reads_right_nothing (empty : read.length = 0) :
    ReadsRight file stream.chunks read (.data []) := by
  refine ⟨rfl, Nat.zero_le _, ?_, ?_⟩
  · intro pos fromHere toHere
    exact absurd toHere (Nat.not_lt_of_le fromHere)
  · intro short
    rw [empty] at short
    exact absurd short (Nat.lt_irrefl _)

theorem read_available_request_if_needed :
    (stream.requestIfNeeded read chunk).readAvailable read = stream.readAvailable read := by
  unfold Stream.requestIfNeeded
  dsimp only
  split_ifs
  · unfold Stream.beginNewRequest
    split_ifs
    all_goals rfl
  · rfl

theorem needed_end_of_closed (closed : stream.closed = true) :
    stream.neededEnd read = min (read.position + read.length) stream.size := by
  unfold Stream.neededEnd
  split_ifs with beyond
  · exact (Nat.min_eq_right (Nat.le_of_lt beyond.2)).symm
  · exact (Nat.min_eq_left (Nat.le_of_not_lt fun larger => beyond ⟨closed, larger⟩)).symm

theorem read_at_outcome (closed : stream.closed = true) (goesOn : read.aborted = false) :
    (stream.readAt read).1 = match findLargestNotAbove read.position stream.chunks with
      | none => stream.readAvailable read
      | some chunk =>
        if min (read.position + read.length) stream.size ≤ chunk.finish then
          stream.readAvailable read
        else .blocked := by
  unfold Stream.readAt Stream.checkIfDataIsAvailable
  rw [goesOn, if_neg Bool.false_ne_true]
  cases findLargestNotAbove read.position stream.chunks with
  | none =>
    dsimp only
    rw [closed, if_pos rfl]
  | some chunk =>
    dsimp only
    rw [needed_end_of_closed closed]
    by_cases available : min (read.position + read.length) stream.size ≤ chunk.finish
    · rw [if_pos available, if_pos (decide_eq_true available)]
      exact read_available_request_if_needed
    · rw [if_neg available, if_neg (fun isAvailable => available (of_decide_eq_true isAvailable))]

include stored in
theorem reads_right_iff_fits (closed : stream.closed = true) :
    ReadsRight file stream.chunks read (stream.readAt read).1 ↔ ReadFits stream read := by
  have isSize : stream.expectedSize = some stream.size := by
    obtain ⟨size, isSize⟩ := Option.isSome_iff_exists.mp (stream.sized closed)
    unfold Stream.size
    rw [isSize]
    rfl
  cases goesOn : read.aborted with
  | true =>
    have outcome : (stream.readAt read).1 = .aborted := by
      unfold Stream.readAt
      rw [if_pos goesOn]
    rw [outcome]
    exact ⟨fun _ => .inl goesOn, fun _ => trivial⟩
  | false =>
    rw [read_at_outcome closed goesOn]
    unfold ReadFits
    rw [goesOn]
    simp only [Bool.false_eq_true, false_or]
    cases found : findLargestNotAbove read.position stream.chunks with
    | none =>
      unfold Stream.readAvailable
      split_ifs with atEnd empty
      · exact ⟨fun _ => .inl atEnd.2, fun _ => trivial⟩
      · exact ⟨fun _ => .inr empty, fun _ => reads_right_nothing empty⟩
      · unfold Stream.readFromChunks
        rw [found]
        refine ⟨False.elim, ?_⟩
        rintro (isEnd | isEmpty)
        · exact absurd ⟨closed, isEnd⟩ atEnd
        · exact absurd isEmpty empty
    | some =>
      dsimp only
      split_ifs with available
      · refine Iff.trans ?_ (and_iff_right available).symm
        unfold Stream.readAvailable
        split_ifs with atEnd empty
        · exact ⟨fun _ => .inl atEnd.2, fun _ => trivial⟩
        · exact ⟨fun _ => .inr (.inl empty), fun _ => reads_right_nothing empty⟩
        · have inside : read.position < stream.size :=
            Nat.lt_of_not_le fun isEnd => atEnd ⟨closed, isEnd⟩
          unfold Stream.readFromChunks
          rw [found, isSize]
          dsimp only
          split_ifs with short exact_
          · refine ⟨fun _ => .inr (.inr (.inr (Option.some.inj exact_.1).symm)), fun _ => ?_⟩
            exact reads_right_of_chunk stored found (by omega) (by omega) (by omega)
          · refine ⟨False.elim, ?_⟩
            rintro (isEnd | isEmpty | reaches | isExact)
            · exact absurd inside (Nat.not_lt_of_le isEnd)
            · exact absurd isEmpty empty
            · exact absurd short (Nat.not_lt_of_le reaches)
            · exact exact_ ⟨congrArg some isExact.symm, isExact ▸ Nat.le_of_lt inside⟩
          · have reaches := Nat.le_of_not_lt short
            refine ⟨fun _ => .inr (.inr (.inl reaches)), fun _ => ?_⟩
            exact reads_right_of_chunk stored found reaches (Nat.le_refl _)
              fun short => absurd short (Nat.lt_irrefl _)
      · exact ⟨False.elim, fun fits => available fits.1⟩

end

/-! ## Histories -/

structure Traced where
  stream : Stream
  added : Nat → Prop

def Traced.empty : Traced := ⟨.empty, fun _ => False⟩

def Traced.step (traced : Traced) (action : Action) : Option Traced :=
  (traced.stream.step action).map fun stream =>
    match action with
    | .addChunkAt offset data => ⟨stream, AddedWith traced.added offset data.length⟩
    | _ => ⟨stream, traced.added⟩

def FromFile (file : Nat → UInt8) : Action → Prop
  | .addChunkAt offset data => data = slice file offset data.length
  | _ => True

/-- The sums the call makes of its positions stay below `2 ^ 64`, the range of their type. -/
def NoWrap : Action → Prop
  | .addChunkAt offset data => offset + data.length + forwardRequestThreshold < 2 ^ 64
  | .close => True
  | .setExpectedSize size => size < 2 ^ 64
  | .readAt read => ∀ position ∈ (read.position + read.length) :: read.activePositions,
      position + forwardRequestThreshold < 2 ^ 64

def AddsFit (chunks : List Chunk) : Action → Prop
  | .addChunkAt offset data => Fits offset data.length chunks
  | _ => True

theorem chunks_begin_new_request {stream : Stream} {pos : Nat} :
    (stream.beginNewRequest pos).chunks = stream.chunks := by
  unfold Stream.beginNewRequest
  split_ifs
  all_goals rfl

theorem add_chunk_at_spec {stream next : Stream} {offset : Nat} {data : List UInt8}
    (done : stream.addChunkAt offset data = some next) :
    data ≠ [] ∧ next.chunks = addChunk offset data stream.chunks := by
  unfold Stream.addChunkAt at done
  split_ifs at done with empty
  refine ⟨empty, ?_⟩
  split at done
  · cases done
    exact chunks_begin_new_request
  · cases done
    rfl

theorem chunks_read_at {stream : Stream} {read : Read} :
    (stream.readAt read).2.chunks = stream.chunks := by
  have checked : (stream.checkIfDataIsAvailable read).2.chunks = stream.chunks := by
    unfold Stream.checkIfDataIsAvailable
    split
    · rfl
    · dsimp only
      unfold Stream.requestIfNeeded
      dsimp only
      split_ifs
      · exact chunks_begin_new_request
      · rfl
  unfold Stream.readAt
  split_ifs
  · rfl
  · dsimp only
    split_ifs
    all_goals exact checked

theorem well_stored_step {file : Nat → UInt8} {traced next : Traced} {action : Action}
    (stored : WellStored file traced.added traced.stream.chunks) (fromFile : FromFile file action)
    (fits : AddsFit traced.stream.chunks action) (stepped : traced.step action = some next) :
    WellStored file next.added next.stream.chunks := by
  obtain ⟨stream, done, rfl⟩ := Option.map_eq_some_iff.mp stepped
  cases action with
  | addChunkAt =>
    obtain ⟨given, isAdded⟩ := add_chunk_at_spec done
    rw [isAdded]
    exact well_stored_add_chunk stored given fromFile fits
  | close | setExpectedSize =>
    cases done
    exact stored
  | readAt =>
    cases done
    rwa [chunks_read_at]

/-- The sums made of the ends of stored chunks do not wrap either. -/
def AddedBelow (added : Nat → Prop) : Prop :=
  ∀ position, added position → position + 1 + forwardRequestThreshold < 2 ^ 64

theorem added_below_step {traced next : Traced} {action : Action}
    (below : AddedBelow traced.added) (noWrap : NoWrap action)
    (stepped : traced.step action = some next) : AddedBelow next.added := by
  obtain ⟨stream, -, rfl⟩ := Option.map_eq_some_iff.mp stepped
  cases action with
  | addChunkAt offset data =>
    rintro pos (before | ⟨-, within⟩)
    · exact below pos before
    · unfold NoWrap at noWrap
      omega
  | close | setExpectedSize | readAt => exact below

theorem finish_below {file : Nat → UInt8} {added : Nat → Prop} {chunks : List Chunk}
    (stored : WellStored file added chunks) (below : AddedBelow added) {chunk : Chunk}
    (mem : chunk ∈ chunks) : chunk.finish + forwardRequestThreshold < 2 ^ 64 := by
  have nonempty := List.length_pos_iff.mpr (stored.nonempty chunk mem)
  have last : added (chunk.finish - 1) := by
    refine (stored.covers _).mp ⟨chunk, mem, ?_, ?_⟩
    all_goals
      unfold Chunk.finish
      omega
  have bound := below _ last
  unfold Chunk.finish at bound ⊢
  omega

/-- The chunks stay right in every history whose additions fit and whose sums do not wrap, and an
addition that does not fit makes them wrong; a read of a closed stream is right in exactly the
cases in which it fits. -/
theorem stream_never_loses_data_iff (file : Nat → UInt8) :
    (∀ traced, Execution Traced.step (fun traced action => FromFile file action ∧
        NoWrap action ∧ AddsFit traced.stream.chunks action) .empty traced →
      WellStored file traced.added traced.stream.chunks ∧
        ∀ chunk ∈ traced.stream.chunks, chunk.finish + forwardRequestThreshold < 2 ^ 64) ∧
    (∀ added chunks offset data, WellStored file added chunks → data ≠ [] →
      data = slice file offset data.length → NoWrap (.addChunkAt offset data) →
      (WellStored file (AddedWith added offset data.length) (addChunk offset data chunks) ↔
        Fits offset data.length chunks)) ∧
    (∀ added stream read, WellStored file added stream.chunks → stream.closed = true →
      NoWrap (.readAt read) →
      (ReadsRight file stream.chunks read (stream.readAt read).1 ↔ ReadFits stream read)) := by
  refine ⟨?_, ?_, ?_⟩
  · intro traced run
    have kept : WellStored file traced.added traced.stream.chunks ∧ AddedBelow traced.added := by
      refine run.invariant (fun traced => WellStored file traced.added traced.stream.chunks ∧
        AddedBelow traced.added) ⟨well_stored_nil, nofun⟩ ?_
      intro before action after holds allowed stepped
      exact ⟨well_stored_step holds.1 allowed.1 allowed.2.2 stepped,
        added_below_step holds.2 allowed.2.1 stepped⟩
    exact ⟨kept.1, fun chunk mem => finish_below kept.1 kept.2 mem⟩
  · intro added chunks offset data stored given fromFile _
    exact ⟨fits_of_well_stored_add_chunk stored, well_stored_add_chunk stored given fromFile⟩
  · intro added stream read stored closed _
    exact reads_right_iff_fits stored closed

/-- Data that holds a stored chunk overlaps with it; a joined chunk is cut off behind the one it is
joined with; and a read in front of all chunks fails. -/
theorem stream_loses_data :
    (∃ traced, Execution Traced.step (fun _ action => FromFile (fun _ => 0) action) .empty traced ∧
      traced.stream.chunks = [⟨0, [0, 0, 0]⟩, ⟨1, [0]⟩] ∧
      ¬ WellStored (fun _ => 0) traced.added traced.stream.chunks) ∧
    (∃ traced, Execution Traced.step (fun _ action => FromFile (fun _ => 0) action) .empty traced ∧
      traced.added 5 ∧ ¬ Covered traced.stream.chunks 5) ∧
    ∃ traced, Execution Traced.step (fun _ action => FromFile (fun _ => 0) action) .empty traced ∧
      WellStored (fun _ => 0) traced.added traced.stream.chunks ∧ traced.stream.closed = true ∧
      (traced.stream.readAt ⟨0, 1, false, []⟩).1 = .failed := by
  refine ⟨⟨_, .tail (.addChunkAt 0 [0, 0, 0]) (.tail (.addChunkAt 1 [0]) .refl rfl rfl) rfl rfl,
    rfl, fun stored => ?_⟩, ⟨_, .tail (.addChunkAt 1 [0, 0, 0, 0, 0, 0])
      (.tail (.addChunkAt 3 [0]) (.tail (.addChunkAt 0 [0, 0]) .refl rfl rfl) rfl rfl) rfl rfl,
      .inr (by decide), ?_⟩,
    ⟨_, .tail .close (.tail (.addChunkAt 5 [0]) .refl rfl rfl) trivial rfl, ?_, rfl, rfl⟩⟩
  · have apart := stored.separated
    revert apart
    decide
  · rintro ⟨chunk, member, holds⟩
    cases mem_singleton.mp member
    revert holds
    decide
  · exact well_stored_add_chunk well_stored_nil (by decide) rfl nofun

theorem joined_chunks_read :
    ∃ traced, Execution Traced.step (fun traced action => FromFile Nat.toUInt8 action ∧
        NoWrap action ∧ AddsFit traced.stream.chunks action) .empty traced ∧
      traced.stream.chunks = [⟨0, [0, 1, 2, 3, 4, 5, 6, 7]⟩] ∧ traced.stream.closed = true ∧
      WellStored Nat.toUInt8 traced.added traced.stream.chunks ∧
      (traced.stream.readAt ⟨1, 10, false, []⟩).1 = .data [1, 2, 3, 4, 5, 6, 7] ∧
      ReadsRight Nat.toUInt8 traced.stream.chunks ⟨1, 10, false, []⟩
        (traced.stream.readAt ⟨1, 10, false, []⟩).1 := by
  obtain ⟨stores, -, reads⟩ := stream_never_loses_data_iff Nat.toUInt8
  have fits : AddsFit [⟨0, [0, 1, 2]⟩, ⟨5, [5, 6, 7]⟩] (.addChunkAt 2 [2, 3, 4]) := by
    rintro _ ⟨⟩ _
    exact ⟨⟨_, rfl, by decide⟩, by decide⟩
  have run : Execution Traced.step (fun traced action => FromFile Nat.toUInt8 action ∧
      NoWrap action ∧ AddsFit traced.stream.chunks action) .empty _ :=
    .tail .close (.tail (.addChunkAt 2 [2, 3, 4]) (.tail (.addChunkAt 5 [5, 6, 7])
      (.tail (.addChunkAt 0 [0, 1, 2]) .refl ⟨rfl, by simp [NoWrap, forwardRequestThreshold],
        nofun⟩ rfl) ⟨rfl, by simp [NoWrap, forwardRequestThreshold], nofun⟩ rfl)
      ⟨rfl, by simp [NoWrap, forwardRequestThreshold], fits⟩ rfl) ⟨trivial, trivial, trivial⟩ rfl
  have stored := (stores _ run).1
  refine ⟨_, run, rfl, rfl, stored, rfl, ?_⟩
  exact (reads _ _ _ stored rfl (by simp [NoWrap, forwardRequestThreshold])).mpr
    (.inr ⟨by decide, .inr (.inr (.inr rfl))⟩)

end Ladybone.Media
